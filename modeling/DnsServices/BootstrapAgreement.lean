import DnsServices.AsyncResolve
import DnsServices.StableSort

namespace DnsServices.Microdoh3

open Shared Bootstrap StableSort

/-!
# Startup and background refresh

The two answers are merged twice: by `resolve` and `resolve_upstream` when the
process starts, and by `AsyncResolve::finish` from then on.  The first puts the
IPv6 addresses first and takes a least TTL of zero for none at all; the second
keeps the order of the replies, skips a TTL of zero and raises the TTL to the
minimum.
-/

section Startup

/-- The lifetime that `resolve` gives two answers. -/
def startupTtl (t6 t4 : UInt32) : UInt32 :=
  let ttl := min (min maxTtl t6) t4
  if ttl = maxTtl ∨ ttl = 0 then defaultTtl else ttl

/-- What startup makes of two answers with an address among them: IPv6 first
in the socket addresses. -/
theorem resolveUpstream_of_answered
    {dns : SimpleDns}
    {host : String}
    {exchanges : QType → Exchange}
    {six four : Answer}
    (aaaa : query dns host .aaaa (exchanges .aaaa) = .ok six)
    (a : query dns host .a (exchanges .a) = .ok four)
    (some : six.1 ++ four.1 ≠ [])
    (port : UInt16)
    (now : Instant) :
    ∃ addrs,
      resolveUpstream dns host none exchanges port now =
          .ok
            ({ addrs := six.1 ++ four.1
               expiresAt := now + fromSecs (startupTtl six.2 four.2).toNat },
              addrs) ∧
        addrs.map SocketAddr.ip =
          (six.1 ++ four.1).filter isIpv6 ++
            (six.1 ++ four.1).filter (!isIpv6 ·) := by
  have resolved :
      resolve dns host none exchanges now =
        .ok
          { addrs := six.1 ++ four.1
            expiresAt := now + fromSecs (startupTtl six.2 four.2).toNat } := by
    simp [resolve, resolveStep, aaaa, a, some, startupTtl]
  refine ⟨_, by rw [resolveUpstream, resolved], ?_⟩
  simp [Function.comp_def]

end Startup

section Lifetime

theorem mergeTtl_eq (t6 t4 : UInt32) :
    AsyncResolve.mergeTtl t6 t4 =
      if t6 = 0 then
        if t4 = 0 then defaultTtl else t4
      else
        if t4 = 0 then t6 else min t6 t4 := by
  unfold AsyncResolve.mergeTtl
  split
  · rfl
  · simp_all
  · simp_all
  · simp_all

/-- Answers read at one time expire together exactly if their TTLs agree. -/
theorem expiry_inj {now : Instant} {first second : UInt32} :
    now + fromSecs first.toNat = now + fromSecs second.toNat ↔
      first = second := by
  rw [Int.add_right_inj, Int.natCast_inj, fromSecs, fromSecs,
    Nat.mul_left_inj (by decide), UInt32.toNat_inj]

/-- Two TTLs lead both paths to one lifetime. -/
def SameLifetime (t6 t4 : UInt32) : Prop :=
  minTtl ≤ min t6 t4 ∨
    (t6 = 0 ∧ t4 = 0) ∨
    (t6 = 0 ∧ t4 = defaultTtl) ∨
    (t6 = defaultTtl ∧ t4 = 0)

/-- Startup and refresh agree on the lifetime of two answers exactly under the
stated condition. -/
theorem startupTtl_eq_iff
    {t6 t4 : UInt32}
    (bounded6 : t6 ≠ maxTtl)
    (bounded4 : t4 ≠ maxTtl) :
    startupTtl t6 t4 = max (AsyncResolve.mergeTtl t6 t4) minTtl ↔
      SameLifetime t6 t4 := by
  have startup :
      startupTtl t6 t4 = if min t6 t4 = 0 then defaultTtl else min t6 t4 := by
    simp only [startupTtl, UInt32.min_def, maxTtl] at bounded6 bounded4 ⊢
    grind
  rw [startup, mergeTtl_eq, SameLifetime]
  simp only [UInt32.min_def, UInt32.max_def, minTtl, defaultTtl]
  by_cases zero6 : t6 = 0
  · by_cases zero4 : t4 = 0
    · simp [zero6, zero4]
    · grind
  · by_cases zero4 : t4 = 0
    · grind
    · grind

end Lifetime

section Agreement

/-- Startup and a background refresh that holds both answers yield the same
addresses in the same order and the same lifetime. -/
def StartupAgrees
    (dns : SimpleDns)
    (host : String)
    (exchanges : QType → Exchange)
    (port : UInt16)
    (now : Instant)
    (resolver : AsyncResolve) : Prop :=
  ∃ state addrs,
    resolveUpstream dns host none exchanges port now = .ok (state, addrs) ∧
      addrs.map SocketAddr.ip = resolver.finish.1 ∧
      state.expiresAt = now + fromSecs resolver.finish.2.toNat

/-- Both paths agree on two parsed answers exactly if no IPv4 address stands
before an IPv6 address, and no TTL is below the minimum unless both are zero,
or one is zero and the other is the default. -/
theorem startupAgrees_iff
    {dns : SimpleDns}
    {host : String}
    {exchanges : QType → Exchange}
    {resolver : AsyncResolve}
    {six four : Answer}
    (aaaa : query dns host .aaaa (exchanges .aaaa) = .ok six)
    (a : query dns host .a (exchanges .a) = .ok four)
    (refreshAaaa : resolver.aaaa = some six)
    (refreshA : resolver.a = some four)
    (some : six.1 ++ four.1 ≠ [])
    (port : UInt16)
    (now : Instant) :
    StartupAgrees dns host exchanges port now resolver ↔
      (six.1 ++ four.1).Pairwise
          (fun earlier later =>
            isIpv6 later = true → isIpv6 earlier = true) ∧
        SameLifetime six.2 four.2 := by
  have bounded : ∀ {qtype answer},
      query dns host qtype (exchanges qtype) = .ok answer →
        answer.2 ≠ maxTtl := by
    intro qtype answer answered
    obtain ⟨packet, rfl⟩ := exists_of_query_eq_ok answered
    exact readAnswers_snd_ne_maxTtl packet.answers
  rw [← filter_append_filter_not_eq_self_iff,
    ← startupTtl_eq_iff (bounded aaaa) (bounded a), StartupAgrees,
    AsyncResolve.finish_of_answered refreshAaaa refreshA]
  obtain ⟨upstream, resolved, ips⟩ :=
    resolveUpstream_of_answered aaaa a some port now
  constructor
  · rintro ⟨state, addrs, same, order, lifetime⟩
    rw [resolved] at same
    cases same
    exact ⟨ips.symm.trans order, expiry_inj.mp lifetime⟩
  · rintro ⟨order, lifetime⟩
    exact ⟨_, upstream, resolved, ips.trans order, expiry_inj.mpr lifetime⟩

/-- Two queries that are answered in their first round.  The clock reads a
whole second, so both have the id 0. -/
def answeredAtOnce (replies : QType → Bytes) (qtype : QType) : Exchange where
  clock := 0
  socket := .ok ()
  rounds := [.received ([0, 0] ++ replies qtype)]

/-- A refresh of `x.test` that holds both answers. -/
def refreshedBy (six four : Answer) : AsyncResolve :=
  { AsyncResolve.xTestResolver 0 1 with
    aaaa := some six
    a := some four }

/-- Two answers with a lifetime of a minute each: startup and refresh agree. -/
theorem startupAgrees_xTest :
    StartupAgrees AsyncResolve.xTestDns "x.test"
      (answeredAtOnce (AsyncResolve.xTestReply 60)) 443 0
      (refreshedBy
        (readAnswers (AsyncResolve.xTestPacket 0 60 .aaaa).answers)
        (readAnswers (AsyncResolve.xTestPacket 0 60 .a).answers)) := by
  refine
    (startupAgrees_iff (by decide +kernel) (by decide +kernel) rfl rfl
      (by decide +kernel) 443 0).mpr ⟨?_, .inl ?_⟩
  · decide +kernel
  · decide +kernel

/-- Addresses with a TTL of one second live one second after a start and half
a minute after a refresh. -/
theorem not_startupAgrees_pathologicalTtl :
    ¬ StartupAgrees AsyncResolve.xTestDns "x.test"
      (answeredAtOnce (AsyncResolve.xTestReply 1)) 443 0
      (refreshedBy
        (readAnswers (AsyncResolve.xTestPacket 0 1 .aaaa).answers)
        (readAnswers (AsyncResolve.xTestPacket 0 1 .a).answers)) := by
  rintro ⟨state, addrs, same, -, lifetime⟩
  have started :
      resolveUpstream AsyncResolve.xTestDns "x.test" none
          (answeredAtOnce (AsyncResolve.xTestReply 1)) 443 0 =
        .ok
          ({ addrs :=
               [.v6 #v[0x20, 1, 0x48, 0x60, 0x48, 0x60, 0, 0,
                  0, 0, 0, 0, 0, 0, 0x88, 0x88],
                 .v4 1 2 3 4]
             expiresAt := fromSecs 1 },
            [⟨.v6 #v[0x20, 1, 0x48, 0x60, 0x48, 0x60, 0, 0,
                0, 0, 0, 0, 0, 0, 0x88, 0x88], 443⟩,
              ⟨.v4 1 2 3 4, 443⟩]) := by
    decide +kernel
  rw [started] at same
  cases same
  revert lifetime
  decide +kernel

end Agreement

end DnsServices.Microdoh3
