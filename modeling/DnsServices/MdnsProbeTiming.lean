import DnsServices.MdnsLink

namespace DnsServices.MdnsPublisher

open Runs

/-!
# One owner for a name

When sleeps and messages keep bounds, two publishers that propose different
records never both get the name.  A probe that wins is missed only before its
receiver detects conflicts or after it has made up its mind, and in either case
one of the two runs early enough to answer the last probe of the other.
-/

section Timing

variable {ι : Type}

namespace LinkHost

/-- `time.Sleep` lasts at least as long as it was told to. -/
def sleptLongEnough (now : Nat) (h : LinkHost) : Prop :=
  match h.phase with
  | .delayed => True
  | .probing 0 => True
  | .probing (probes + 1) => h.times.probe probes + probeInterval ≤ now
  | .probed => True
  | .running 0 => True
  | .running (_ + 1) => h.times.announced + announceInterval ≤ now
  | .failed => True

/-- The goroutine of `main` gets to run less than one interval late, up to the
moment it starts to answer. -/
def notTooLate (later : Nat) (h : LinkHost) : Prop :=
  match h.phase with
  | .delayed => True
  | .probing 0 => True
  | .probing (probes + 1) =>
      later < h.times.probe probes + 2 * probeInterval
  | .probed => later < h.times.probe (probeCount - 1) + 2 * probeInterval
  | .running _ => True
  | .failed => True

end LinkHost

/-- A host has acted on a message. -/
def Link.ActedOn (link : Link ι) (i : ι) (carried : Carried ι) : Prop :=
  ∃ entry ∈ link.handled, entry.1.host = i ∧ entry.1.carried = carried

/-- Sleeps are neither too short nor much too long, a message is acted on
within the latency by every host it is for that is still there, and a link that
changes its addresses keeps a usable one. -/
def Link.Timely
    (ps : ι → Publisher)
    (latency : Nat)
    (link : Link ι)
    (action : LinkAction ι) : Prop :=
  link.Possible ps action ∧
    match action with
    | .advance ms =>
        (∀ i, (link.hosts i).notTooLate (link.now + ms)) ∧
          ∀ carried ∈ link.sent, ∀ i, carried.For i →
            (link.hosts i).phase = .failed ∨ link.ActedOn i carried ∨
              link.now + ms ≤ carried.sentAt + latency
    | .wake i => (link.hosts i).sleptLongEnough link.now
    | .receive _ _ => True
    | .dispatch _ => True
    | .foreign _ _ => True
    | .refresh i addrs => (ps i).recordsFor addrs ≠ []
    | .publish _ => True

end Timing

section Answers

variable {p q : Publisher} {zone : HostnameZone}

/-- A probe asks for every record of a host of the same name. -/
theorem HostZone.answering_probe
    (host : HostZone p.fqdn p.ttl zone)
    (same : q.SameName p)
    (some : zone.records ≠ [])
    (proposed : List RR) :
    ∀ question ∈ (probeQuery q.fqdn proposed).question,
      zone.answering question = zone.records := by
  intro question asked
  rw [List.mem_singleton.mp asked]
  have all :
      zone.records.filter
          ({ name := q.fqdn
             qtype := typeANY
             qclass := classINET ||| quBit } : Question).asksFor =
        zone.records := by
    rw [List.filter_eq_self]
    intro r member
    have named : equalFold r.header.name q.fqdn = true := by
      rw [(host.made r member).name_eq]
      exact equalFold_symm same
    have inClass : (classINET ||| quBit) &&& ~~~quBit = classINET := by
      decide
    simp [Question.asksFor, Question.inClass, named, inClass]
  rw [HostnameZone.answering, all, if_neg some]

/-- A running host answers a probe for its name by unicast, with all its
records. -/
theorem HostZone.answerQuery_probe
    (host : HostZone p.fqdn p.ttl zone)
    (same : q.SameName p)
    (some : zone.records ≠ [])
    (proposed : List RR) :
    answerQuery zone (probeQuery q.fqdn proposed) mdnsPort =
      [.unicast (responseMsg zone.records)] := by
  have answers := host.answering_probe same some proposed
  have toSource :
      ∀ question ∈ (probeQuery q.fqdn proposed).question,
        question.byUnicast mdnsPort = true := by
    intro question asked
    rw [List.mem_singleton.mp asked]
    exact (by decide :
      (isLegacy mdnsPort || (classINET ||| quBit) &&& quBit != 0) = true)
  have copies : sentCopy false = id := rfl
  have length : zone.records.length > 0 :=
    List.length_pos_iff.mpr some
  simp only [probeQuery, probeMsg, List.forall_mem_singleton] at answers toSource
  simp [answerQuery_eq, host.answersToAll_eq, unknownTo, probeQuery, probeMsg,
    answers, toSource, isLegacy_mdnsPort, copies, unicastResponse,
    HostnameZone.isKnownAnswer, length]

/-- Such an answer is taken for a conflict. -/
theorem HostZone.reacts_responseMsg
    (host : HostZone p.fqdn p.ttl zone)
    (same : q.SameName p)
    (some : zone.records ≠ []) :
    q.server.Reacts (mdnsPacket (responseMsg zone.records)) := by
  obtain ⟨r, member⟩ := List.exists_mem_of_ne_nil _ some
  refine ⟨_, rfl, Or.inl ⟨⟨rfl, rfl, rfl⟩, rfl, r, ?_, ?_⟩⟩
  · simpa [responseMsg] using member
  · rw [MdnsServer.isProbed, (host.made r member).name_eq]
    exact equalFold_symm same

end Answers

section Schedule

namespace MainPhase

/-- `runProbe` has read the conflict flag and found it clear. -/
def isChecked : MainPhase → Bool
  | probed => true
  | running _ => true
  | delayed => false
  | probing _ => false
  | failed => false

/-- The probes of a publisher that has not given up. -/
def probes : MainPhase → Nat
  | probing probes => probes
  | probed => probeCount
  | running _ => probeCount
  | delayed => 0
  | failed => 0

theorem isChecked_of_isRunning
    {phase : MainPhase}
    (running : phase.isRunning = true) :
    phase.isChecked = true := by
  cases phase with
  | running _ =>
      rfl
  | delayed =>
      cases running
  | probing _ =>
      cases running
  | probed =>
      rfl
  | failed =>
      cases running

theorem probes_of_isRunning
    {phase : MainPhase}
    (running : phase.isRunning = true) :
    phase.probes = probeCount := by
  cases phase with
  | running _ =>
      rfl
  | delayed =>
      cases running
  | probing _ =>
      cases running
  | probed =>
      rfl
  | failed =>
      cases running

theorem ne_delayed_of_isRunning
    {phase : MainPhase}
    (running : phase.isRunning = true) :
    phase ≠ .delayed := by
  rintro rfl
  cases running

end MainPhase

/-- So many probes have been sent at the right distances. -/
structure Spaced (times : Times) (now probes : Nat) : Prop where
  started : times.probing ≤ now
  first : 0 < probes → times.probing ≤ times.probe 0
  past : ∀ k < probes, times.probe k ≤ now
  apart : ∀ k, k + 1 < probes →
    times.probe k + probeInterval ≤ times.probe (k + 1)
  close : ∀ k, k + 1 < probes →
    times.probe (k + 1) < times.probe k + 2 * probeInterval

/-- What the times of a probing publisher say, up to a moment. -/
structure Scheduled (now : Nat) (h : LinkHost) : Prop where
  inTime : h.notTooLate now
  bounded : h.phase.probes ≤ probeCount
  spaced : h.phase ≠ .delayed → Spaced h.times now h.phase.probes
  checked : h.phase.isChecked = true →
    h.times.probe 2 + probeInterval ≤ h.times.checked ∧
      h.times.checked ≤ now
  running : h.phase.isRunning = true →
    h.times.checked ≤ h.times.running ∧ h.times.running ≤ now ∧
      h.times.running < h.times.probe 2 + 2 * probeInterval

variable {p : Publisher} {now later : Nat} {h woken : LinkHost}

theorem scheduled_start (p : Publisher) : Scheduled 0 (LinkHost.start p) where
  inTime := trivial
  bounded := Nat.zero_le _
  spaced := fun notDelayed => absurd rfl notDelayed
  checked := nofun
  running := nofun

/-- Time may pass as long as the host does not oversleep. -/
theorem Scheduled.advance
    (scheduled : Scheduled now h)
    (passes : now ≤ later)
    (inTime : h.notTooLate later) :
    Scheduled later h where
  inTime := inTime
  bounded := scheduled.bounded
  spaced := fun notDelayed =>
    let spaced := scheduled.spaced notDelayed
    { spaced with
      started := spaced.started.trans passes
      past := fun k sent => (spaced.past k sent).trans passes }
  checked := fun checked =>
    ⟨(scheduled.checked checked).1, (scheduled.checked checked).2.trans passes⟩
  running := fun running =>
    ⟨(scheduled.running running).1,
      (scheduled.running running).2.1.trans passes,
      (scheduled.running running).2.2⟩

/-- One more probe, when the sleep after the last one is over. -/
theorem Spaced.probe
    {times : Times}
    {probes : Nat}
    (spaced : Spaced times now probes)
    (slept : ∀ k, probes = k + 1 → times.probe k + probeInterval ≤ now)
    (inTime : ∀ k, probes = k + 1 → now < times.probe k + 2 * probeInterval) :
    Spaced { times with probe := Function.update times.probe probes now } now
      (probes + 1) where
  started := spaced.started
  first := by
    intro _
    by_cases none : probes = 0
    · subst none
      simpa using spaced.started
    · have earlier : 0 ≠ probes := Ne.symm none
      simpa [Function.update_of_ne earlier] using
        spaced.first (Nat.pos_of_ne_zero none)
  past := by
    intro k sent
    by_cases last : k = probes
    · subst last
      simp
    · simpa [Function.update_of_ne last] using spaced.past k (by omega)
  apart := by
    intro k sent
    have earlier : k ≠ probes := by omega
    by_cases last : k + 1 = probes
    · subst last
      simpa [Function.update_of_ne earlier] using slept k rfl
    · simpa [Function.update_of_ne earlier, Function.update_of_ne last] using
        spaced.apart k (by omega)
  close := by
    intro k sent
    have earlier : k ≠ probes := by omega
    by_cases last : k + 1 = probes
    · subst last
      simpa [Function.update_of_ne earlier] using inTime k rfl
    · simpa [Function.update_of_ne earlier, Function.update_of_ne last] using
        spaced.close k (by omega)

/-- The goroutine of `main` keeps to the schedule. -/
theorem Scheduled.wake
    {sent : List DnsMsg}
    (scheduled : Scheduled now h)
    (probes : p.skipProbe = false)
    (slept : h.sleptLongEnough now)
    (wakes : Woken p now h woken sent) :
    Scheduled now woken := by
  cases wakes with
  | skip _ skips =>
      rw [probes] at skips
      cases skips
  | activate delayed _ =>
      refine ⟨trivial, Nat.zero_le _, fun _ => ?_, nofun, nofun⟩
      exact ⟨le_refl _, nofun, nofun, nofun, nofun⟩
  | probe probing more =>
      have spaced := scheduled.spaced (by simp [probing])
      have inTime := scheduled.inTime
      rw [probing, MainPhase.probes] at spaced
      rw [LinkHost.notTooLate, probing] at inTime
      rw [LinkHost.sleptLongEnough, probing] at slept
      refine ⟨?_, more, fun _ => ?_, nofun, nofun⟩
      · simp [LinkHost.notTooLate, probeInterval]
      · refine spaced.probe ?_ ?_
        · rintro k rfl
          exact slept
        · rintro k rfl
          exact inTime
  | conflict probing _ _ =>
      have spaced := scheduled.spaced (by simp [probing])
      refine ⟨trivial, Nat.zero_le _, fun _ => ?_, nofun, nofun⟩
      exact ⟨spaced.started, nofun, nofun, nofun, nofun⟩
  | clear probing all _ =>
      have bounded := scheduled.bounded
      have spaced := scheduled.spaced (by simp [probing])
      have inTime := scheduled.inTime
      rw [probing, MainPhase.probes] at bounded spaced
      obtain rfl := Nat.le_antisymm bounded all
      rw [LinkHost.notTooLate, probing] at inTime
      rw [LinkHost.sleptLongEnough, probing] at slept
      exact ⟨inTime, le_refl _, fun _ => { spaced with },
        fun _ => ⟨slept, le_refl _⟩, nofun⟩
  | run probed =>
      have spaced := scheduled.spaced (by simp [probed])
      have checked := scheduled.checked (by rw [probed]; rfl)
      have inTime := scheduled.inTime
      rw [probed, MainPhase.probes] at spaced
      rw [LinkHost.notTooLate, probed] at inTime
      exact ⟨trivial, le_refl _, fun _ => { spaced with }, fun _ => checked,
        fun _ => ⟨checked.2, le_refl _, inTime⟩⟩
  | announce running =>
      have spaced := scheduled.spaced (by simp [running])
      have checked := scheduled.checked (by rw [running]; rfl)
      have runs := scheduled.running (by rw [running]; rfl)
      rw [running, MainPhase.probes] at spaced
      exact ⟨trivial, le_refl _, fun _ => { spaced with }, fun _ => checked,
        fun _ => runs⟩
  | idle =>
      exact scheduled

/-- The times and the phase are all the schedule is about. -/
theorem Scheduled.congr
    (scheduled : Scheduled now h)
    {other : LinkHost}
    (phase : other.phase = h.phase)
    (times : other.times = h.times) :
    Scheduled now other := by
  obtain ⟨_, _, _, _⟩ := other
  cases phase
  cases times
  exact ⟨scheduled.inTime, scheduled.bounded, scheduled.spaced,
    scheduled.checked, scheduled.running⟩

end Schedule

section Receipts

variable {ι : Type} {p : Publisher} {now : Nat} {h next : LinkHost}

/-- A conflict was seen in time: `runProbe` fails, or has failed. -/
def LinkHost.Lost (h : LinkHost) : Prop :=
  h.phase.isChecked = false ∧ h.server.conflictDetected = true

/-- How a probing publisher moves on at a moment: what it has reached stays
reached at the same time, and what it reaches now, it reaches at the moment. -/
structure Progress (now : Nat) (h next : LinkHost) : Prop where
  started : h.phase ≠ .delayed → next.times.probing = h.times.probing
  starts : h.phase = .delayed → next.phase ≠ .delayed →
    next.times.probing = now
  runs : h.phase.isRunning = true →
    next.phase.isRunning = true ∧ next.times.running = h.times.running
  begins : h.phase.isRunning = false → next.phase.isRunning = true →
    next.times.running = now
  checked : h.phase.isChecked = true →
    next.phase.isChecked = true ∧ next.times.checked = h.times.checked
  lost : h.Lost → next.Lost

/-- Nothing but the server or the outbox changes, and no conflict is
forgotten. -/
theorem progress_of_same
    (phase : next.phase = h.phase)
    (times : next.times = h.times)
    (kept : h.server.conflictDetected = true →
      next.server.conflictDetected = true) :
    Progress now h next where
  started := fun _ => by rw [times]
  starts := fun delayed notDelayed => by
    rw [phase] at notDelayed
    exact absurd delayed notDelayed
  runs := fun running => by
    rw [phase, times]
    exact ⟨running, rfl⟩
  begins := fun waiting running => by
    rw [phase, waiting] at running
    cases running
  checked := fun checked => by
    rw [phase, times]
    exact ⟨checked, rfl⟩
  lost := fun lost => ⟨by rw [phase]; exact lost.1, kept lost.2⟩

/-- A probing host that wakes goes forward. -/
theorem progress_wake
    {sent : List DnsMsg}
    (probes : p.skipProbe = false)
    (wakes : Woken p now h next sent) :
    Progress now h next := by
  cases wakes with
  | skip _ skips =>
      rw [probes] at skips
      cases skips
  | activate delayed _ =>
      refine ⟨fun started => absurd delayed started, fun _ _ => rfl, ?_,
        fun _ running => absurd running Bool.false_ne_true, ?_,
        fun lost => ⟨rfl, lost.2⟩⟩
      · simp [delayed, MainPhase.isRunning]
      · simp [delayed, MainPhase.isChecked]
  | probe probing _ =>
      refine ⟨fun _ => rfl, ?_, ?_,
        fun _ running => absurd running Bool.false_ne_true, ?_,
        fun lost => ⟨rfl, lost.2⟩⟩
      · simp [probing]
      · simp [probing, MainPhase.isRunning]
      · simp [probing, MainPhase.isChecked]
  | conflict probing _ _ =>
      refine ⟨fun _ => rfl, ?_, ?_,
        fun _ running => absurd running Bool.false_ne_true, ?_,
        fun lost => ⟨rfl, lost.2⟩⟩
      · simp [probing]
      · simp [probing, MainPhase.isRunning]
      · simp [probing, MainPhase.isChecked]
  | clear probing _ unflagged =>
      refine ⟨fun _ => rfl, ?_, ?_,
        fun _ running => absurd running Bool.false_ne_true, ?_, ?_⟩
      · simp [probing]
      · simp [probing, MainPhase.isRunning]
      · simp [probing, MainPhase.isChecked]
      · intro lost
        rw [LinkHost.Lost, unflagged] at lost
        cases lost.2
  | run probed =>
      refine ⟨fun _ => rfl, ?_, ?_, fun _ _ => rfl, fun _ => ⟨rfl, rfl⟩, ?_⟩
      · simp [probed]
      · simp [probed, MainPhase.isRunning]
      · intro lost
        rw [LinkHost.Lost, probed] at lost
        cases lost.1
  | announce running =>
      refine ⟨fun _ => rfl, ?_, fun _ => ⟨rfl, rfl⟩, ?_,
        fun _ => ⟨rfl, rfl⟩, ?_⟩
      · simp [running]
      · simp [running, MainPhase.isRunning]
      · intro lost
        rw [LinkHost.Lost, running] at lost
        cases lost.1
  | idle =>
      exact progress_of_same rfl rfl id

/-- What the state that was loaded says about when it was loaded. -/
structure ReadInTime
    (now : Nat)
    (h : LinkHost)
    (receipt : Receipt ι) : Prop where
  sent : receipt.carried.sentAt ≤ receipt.readAt
  past : receipt.readAt ≤ now
  pending : receipt.state = .pending → h.phase ≠ .delayed →
    receipt.readAt ≤ h.times.probing
  waiting : receipt.state ≠ .running → h.phase.isRunning = true →
    receipt.readAt ≤ h.times.running
  running : receipt.state = .running →
    h.phase.isRunning = true ∧ h.times.running ≤ receipt.readAt

/-- What was read in time stays so as the host goes forward. -/
theorem ReadInTime.progress
    {receipt : Receipt ι}
    (read : ReadInTime now h receipt)
    (progress : Progress now h next) :
    ReadInTime now next receipt where
  sent := read.sent
  past := read.past
  pending := by
    intro pending notDelayed
    by_cases delayed : h.phase = .delayed
    · rw [progress.starts delayed notDelayed]
      exact read.past
    · rw [progress.started delayed]
      exact read.pending pending delayed
  waiting := by
    intro notRunning runs
    cases running : h.phase.isRunning with
    | true =>
        rw [(progress.runs running).2]
        exact read.waiting notRunning running
    | false =>
        rw [progress.begins running runs]
        exact read.past
  running := by
    intro loaded
    obtain ⟨running, since⟩ := read.running loaded
    rw [(progress.runs running).2]
    exact ⟨(progress.runs running).1, since⟩

/-- What came of a packet that was acted on: a conflict was seen in time,
unless the host was not yet probing when it read the packet or had made up its
mind before it acted. -/
structure Settles
    (p : Publisher)
    (h : LinkHost)
    (entry : Receipt ι × Nat) : Prop where
  read : entry.1.readAt ≤ entry.2
  conflict : p.server.Reacts entry.1.carried.packet →
    h.Lost ∨ entry.1.state = .pending ∨
      h.phase.isChecked = true ∧ h.times.checked ≤ entry.2

/-- What a receipt settled stays settled as the host goes forward. -/
theorem Settles.progress
    {entry : Receipt ι × Nat}
    (settles : Settles p h entry)
    (progress : Progress now h next) :
    Settles p next entry where
  read := settles.read
  conflict := by
    intro reacts
    rcases settles.conflict reacts with lost | pending | ⟨checked, before⟩
    · exact Or.inl (progress.lost lost)
    · exact Or.inr (Or.inl pending)
    · refine Or.inr (Or.inr ?_)
      rw [(progress.checked checked).2]
      exact ⟨(progress.checked checked).1, before⟩

/-- Acting on a packet settles it. -/
theorem settles_act
    {excused : Prop}
    {receipt : Receipt ι}
    (sound : HostSound p excused h)
    (scheduled : Scheduled now h)
    (read : ReadInTime now h receipt)
    (acts : Acted receipt.state receipt.carried.packet h next) :
    Settles p next (receipt, now) where
  read := read.past
  conflict := by
    intro reacts
    cases checked : h.phase.isChecked with
    | true =>
        rw [acts.phase, acts.times]
        exact Or.inr (Or.inr ⟨checked, (scheduled.checked checked).2⟩)
    | false =>
        cases state : receipt.state with
        | pending =>
            exact Or.inr (Or.inl rfl)
        | running =>
            have runs :=
              MainPhase.isChecked_of_isRunning (read.running state).1
            rw [checked] at runs
            cases runs
        | probing =>
            refine Or.inl ⟨acts.phase ▸ checked, ?_⟩
            by_cases failed : h.phase = .failed
            · exact acts.kept (sound.failed failed)
            · have waiting : h.phase.isRunning = false := by
                cases running : h.phase.isRunning with
                | false =>
                    rfl
                | true =>
                    rw [MainPhase.isChecked_of_isRunning running] at checked
                    cases checked
              refine acts.raises failed state ?_
              rw [sound.reacts_eq waiting]
              exact reacts

end Receipts

section Network

variable
  {ι : Type}
  {ps : ι → Publisher}
  {latency : Nat}
  {link : Link ι}

/-- The probe of a publisher as it is carried. -/
def probeAt (ps : ι → Publisher) (i : ι) (sentAt : Nat) : Carried ι where
  source := some i
  dest := none
  sentAt := sentAt
  packet := mdnsPacket (probeQuery (ps i).fqdn (ps i).records)

/-- An answer that makes the sender of a probe fail was sent back at a
moment. -/
def Answered
    (ps : ι → Publisher)
    (link : Link ι)
    (querier : ι)
    (moment : Nat) : Prop :=
  ∃ carried ∈ link.sent,
    carried.dest = some querier ∧ carried.sentAt = moment ∧
      (ps querier).server.Reacts carried.packet

/-- A host has acted on a message within the latency. -/
def Delivered
    (latency : Nat)
    (link : Link ι)
    (i : ι)
    (carried : Carried ι) : Prop :=
  ∃ entry ∈ link.handled, entry.1.host = i ∧ entry.1.carried = carried ∧
    entry.2 ≤ carried.sentAt + latency

/-- What holds of a link whose sleeps and messages keep their bounds. -/
structure Timed
    (ps : ι → Publisher)
    (latency : Nat)
    (link : Link ι) : Prop where
  zones : ∀ i, (link.hosts i).server.zone.records ≠ []
  sent : ∀ carried ∈ link.sent, carried.sentAt ≤ link.now
  past : ∀ entry ∈ link.handled, entry.2 ≤ link.now
  scheduled : ∀ i, (ps i).skipProbe = false →
    Scheduled link.now (link.hosts i)
  probes : ∀ i, (ps i).skipProbe = false →
    ∀ k < (link.hosts i).phase.probes,
      probeAt ps i ((link.hosts i).times.probe k) ∈ link.sent
  inHand : ∀ receipt ∈ link.inHand, (ps receipt.host).skipProbe = false →
    ReadInTime link.now (link.hosts receipt.host) receipt
  handled : ∀ entry ∈ link.handled, (ps entry.1.host).skipProbe = false →
    ReadInTime link.now (link.hosts entry.1.host) entry.1 ∧
      Settles (ps entry.1.host) (link.hosts entry.1.host) entry
  answered : ∀ entry ∈ link.handled, entry.1.state = .running →
    ∀ querier sentAt, entry.1.carried = probeAt ps querier sentAt →
      (ps querier).SameName (ps entry.1.host) →
        Answered ps link querier entry.2
  delivered : ∀ carried ∈ link.sent, ∀ i, carried.For i →
    (link.hosts i).phase = .failed ∨ Delivered latency link i carried ∨
      link.now ≤ carried.sentAt + latency

theorem timed_start (ps : ι → Publisher) (latency : Nat) :
    Timed ps latency (Link.start ps) where
  zones := fun i => (ps i).usable
  sent := by simp [Link.start]
  past := by simp [Link.start]
  scheduled := fun i _ => scheduled_start (ps i)
  probes := by simp [Link.start, LinkHost.start, MainPhase.probes]
  inHand := by simp [Link.start]
  handled := by simp [Link.start]
  answered := by simp [Link.start]
  delivered := by simp [Link.start]

/-- Time may pass while nobody oversleeps and messages arrive within the
latency. -/
theorem Timed.advance
    (timed : Timed ps latency link)
    {ms : Nat}
    (inTime : ∀ i, (link.hosts i).notTooLate (link.now + ms))
    (arrived : ∀ carried ∈ link.sent, ∀ i, carried.For i →
      (link.hosts i).phase = .failed ∨ link.ActedOn i carried ∨
        link.now + ms ≤ carried.sentAt + latency) :
    Timed ps latency { link with now := link.now + ms } := by
  have passes : link.now ≤ link.now + ms := Nat.le_add_right _ _
  refine
    { zones := timed.zones
      sent := fun carried member => (timed.sent carried member).trans passes
      past := fun entry member => (timed.past entry member).trans passes
      scheduled := fun i probes =>
        (timed.scheduled i probes).advance passes (inTime i)
      probes := timed.probes
      inHand := fun receipt member probes =>
        let read := timed.inHand receipt member probes
        { read with past := read.past.trans passes }
      handled := fun entry member probes =>
        let read := (timed.handled entry member probes).1
        ⟨{ read with past := read.past.trans passes },
          (timed.handled entry member probes).2⟩
      answered := timed.answered
      delivered := ?_ }
  intro carried member i reaches
  rcases arrived carried member i reaches with
    failed | ⟨entry, handled, host, same⟩ | inTime
  · exact Or.inl failed
  · -- what was acted on before was acted on in time
    rcases timed.delivered carried member i reaches with
      failed | delivered | early
    · exact Or.inl failed
    · exact Or.inr (Or.inl delivered)
    · exact Or.inr (Or.inl
        ⟨entry, handled, host, same, (timed.past entry handled).trans early⟩)
  · exact Or.inr (Or.inr inTime)

theorem Timed.send
    (timed : Timed ps latency link)
    {carried : List (Carried ι)}
    (now : ∀ one ∈ carried, one.sentAt = link.now) :
    Timed ps latency (link.send carried) where
  zones := timed.zones
  sent := by
    intro one member
    rcases List.mem_append.mp member with before | new
    · exact timed.sent one before
    · exact (now one new).le
  past := timed.past
  scheduled := timed.scheduled
  probes := fun i probes k sent =>
    List.mem_append_left _ (timed.probes i probes k sent)
  inHand := timed.inHand
  handled := timed.handled
  answered := by
    intro entry member running querier sentAt probe same
    obtain ⟨answer, sent, rest⟩ :=
      timed.answered entry member running querier sentAt probe same
    exact ⟨answer, List.mem_append_left _ sent, rest⟩
  delivered := by
    intro one member i reaches
    rcases List.mem_append.mp member with before | new
    · exact timed.delivered one before i reaches
    · refine Or.inr (Or.inr ?_)
      rw [now one new]
      exact Nat.le_add_right _ _

variable [DecidableEq ι]

/-- What holds of the other hosts and of the new one holds of all. -/
theorem Link.forall_hosts_setHost
    (holds : ι → LinkHost → Prop)
    {i : ι}
    {h : LinkHost}
    (others : ∀ j, holds j (link.hosts j))
    (this : holds i h)
    (j : ι) :
    holds j ((link.setHost i h).hosts j) := by
  by_cases same : j = i
  · subst same
    rw [Link.hosts_setHost_self]
    exact this
  · rw [Link.hosts_setHost_of_ne link same]
    exact others j

/-- A host that goes forward on schedule keeps the timing invariant. -/
theorem Timed.setHost
    (timed : Timed ps latency link)
    {i : ι}
    {h : LinkHost}
    (zone : h.server.zone.records ≠ [])
    (scheduled : (ps i).skipProbe = false → Scheduled link.now h)
    (progress : (ps i).skipProbe = false →
      Progress link.now (link.hosts i) h)
    (probes : (ps i).skipProbe = false →
      ∀ k < h.phase.probes, probeAt ps i (h.times.probe k) ∈ link.sent)
    (failed : (link.hosts i).phase = .failed → h.phase = .failed) :
    Timed ps latency (link.setHost i h) where
  zones :=
    Link.forall_hosts_setHost (fun _ host => host.server.zone.records ≠ [])
      timed.zones zone
  sent := timed.sent
  past := timed.past
  scheduled :=
    Link.forall_hosts_setHost
      (fun j host => (ps j).skipProbe = false → Scheduled link.now host)
      timed.scheduled scheduled
  probes :=
    Link.forall_hosts_setHost
      (fun j host => (ps j).skipProbe = false →
        ∀ k < host.phase.probes, probeAt ps j (host.times.probe k) ∈ link.sent)
      timed.probes probes
  inHand := by
    intro receipt member
    refine Link.forall_hosts_setHost
      (fun j host => receipt.host = j → (ps j).skipProbe = false →
        ReadInTime link.now host receipt) ?_ ?_ receipt.host rfl
    · rintro _ rfl
      exact timed.inHand receipt member
    · rintro rfl probing
      exact (timed.inHand receipt member probing).progress (progress probing)
  handled := by
    intro entry member
    refine Link.forall_hosts_setHost
      (fun j host => entry.1.host = j → (ps j).skipProbe = false →
        ReadInTime link.now host entry.1 ∧ Settles (ps j) host entry)
      ?_ ?_ entry.1.host rfl
    · rintro _ rfl
      exact timed.handled entry member
    · rintro rfl probing
      obtain ⟨read, settles⟩ := timed.handled entry member probing
      exact ⟨read.progress (progress probing),
        settles.progress (progress probing)⟩
  answered := timed.answered
  delivered := by
    intro carried member
    refine Link.forall_hosts_setHost
      (fun j host => carried.For j →
        host.phase = .failed ∨ Delivered latency link j carried ∨
          link.now ≤ carried.sentAt + latency)
      (timed.delivered carried member) ?_
    intro reaches
    exact (timed.delivered carried member i reaches).imp_left failed

/-- A probe counted after waking was counted before or is the one just sent. -/
theorem Woken.probes
    {p : Publisher}
    {now : Nat}
    {h woken : LinkHost}
    {sent : List DnsMsg}
    (wakes : Woken p now h woken sent)
    (probing : p.skipProbe = false)
    {k : Nat}
    (below : k < woken.phase.probes) :
    k < h.phase.probes ∧ woken.times.probe k = h.times.probe k ∨
      woken.times.probe k = now ∧
        sent = [probeQuery h.server.probeName p.records] := by
  cases wakes with
  | skip _ skips =>
      rw [probing] at skips
      cases skips
  | activate _ _ =>
      cases below
  | @probe probes phase _ =>
      by_cases last : k = probes
      · subst last
        exact Or.inr ⟨Function.update_self .., rfl⟩
      · refine Or.inl ⟨?_, Function.update_of_ne last ..⟩
        rw [phase]
        exact lt_of_le_of_ne (Nat.lt_succ_iff.mp below) last
  | conflict _ _ _ =>
      cases below
  | clear phase all _ =>
      refine Or.inl ⟨?_, rfl⟩
      rw [phase]
      exact lt_of_lt_of_le below all
  | run phase =>
      refine Or.inl ⟨?_, rfl⟩
      rw [phase]
      exact below
  | announce phase =>
      refine Or.inl ⟨?_, rfl⟩
      rw [phase]
      exact below
  | idle =>
      exact Or.inl ⟨below, rfl⟩

/-- Waking up leaves the server as it is, and a process that is gone is
gone. -/
theorem Woken.kept
    {p : Publisher}
    {now : Nat}
    {h woken : LinkHost}
    {sent : List DnsMsg}
    (wakes : Woken p now h woken sent) :
    woken.server = h.server ∧
      (h.phase = .failed → woken.phase = .failed) := by
  cases wakes with
  | skip phase _ =>
      simp [phase]
  | activate phase _ =>
      simp [phase]
  | probe phase _ =>
      simp [phase]
  | conflict _ _ _ =>
      simp
  | clear phase _ _ =>
      simp [phase]
  | run phase =>
      simp [phase]
  | announce phase =>
      simp [phase]
  | idle =>
      simp

/-- Waking a host keeps the timing invariant. -/
theorem Timed.wake
    (timed : Timed ps latency link)
    (sound : Sound ps link)
    {i : ι}
    (slept : (link.hosts i).sleptLongEnough link.now) :
    Timed ps latency (link.step ps (.wake i)) := by
  have wakes := woken_wake (ps i) link.now (link.hosts i)
  have posted :
      Timed ps latency
        (link.send (((link.hosts i).wake (ps i) link.now).2.map
          (link.multicast i))) := by
    refine timed.send ?_
    intro carried member
    obtain ⟨msg, -, rfl⟩ := List.mem_map.mp member
    rfl
  have zone :
      ((link.hosts i).wake (ps i) link.now).1.server.zone.records ≠ [] := by
    rw [wakes.kept.1]
    exact timed.zones i
  -- sending first and changing the phase then is the same
  show Timed ps latency
    ((link.send (((link.hosts i).wake (ps i) link.now).2.map
      (link.multicast i))).setHost i ((link.hosts i).wake (ps i) link.now).1)
  refine posted.setHost zone ?_ ?_ ?_ wakes.kept.2
  · intro probing
    exact (timed.scheduled i probing).wake probing slept wakes
  · intro probing
    exact progress_wake probing wakes
  · intro probing k below
    rcases wakes.probes probing below with ⟨before, same⟩ | ⟨now, sent⟩
    · rw [same]
      exact List.mem_append_left _ (timed.probes i probing k before)
    · refine List.mem_append_right _ ?_
      rw [now, sent, (sound.hosts i).name]
      exact List.mem_singleton.mpr rfl

/-- Recording a receipt keeps the timing invariant. -/
theorem Timed.record
    (timed : Timed ps latency link)
    {receipt : Receipt ι}
    (settled : (ps receipt.host).skipProbe = false →
      ReadInTime link.now (link.hosts receipt.host) receipt ∧
        Settles (ps receipt.host) (link.hosts receipt.host)
          (receipt, link.now))
    (answers : receipt.state = .running →
      ∀ querier sentAt, receipt.carried = probeAt ps querier sentAt →
        (ps querier).SameName (ps receipt.host) →
          Answered ps link querier link.now) :
    Timed ps latency
      { link with
        inHand := link.inHand.erase receipt
        handled := link.handled ++ [(receipt, link.now)] } := by
  refine
    { zones := timed.zones
      sent := timed.sent
      past := ?_
      scheduled := timed.scheduled
      probes := timed.probes
      inHand := fun other still =>
        timed.inHand other (List.mem_of_mem_erase still)
      handled := ?_
      answered := ?_
      delivered := ?_ }
  · intro entry member
    rcases List.mem_append.mp member with before | new
    · exact timed.past entry before
    · rw [List.mem_singleton.mp new]
  · intro entry member
    rcases List.mem_append.mp member with before | new
    · exact timed.handled entry before
    · rw [List.mem_singleton.mp new]
      exact settled
  · intro entry member
    rcases List.mem_append.mp member with before | new
    · exact timed.answered entry before
    · rw [List.mem_singleton.mp new]
      exact answers
  · intro carried member i reaches
    rcases timed.delivered carried member i reaches with
      failed | ⟨entry, handled, rest⟩ | early
    · exact Or.inl failed
    · exact Or.inr (Or.inl ⟨entry, List.mem_append_left _ handled, rest⟩)
    · exact Or.inr (Or.inr early)

/-- A running host answers the probe it has read. -/
theorem handle_running_probe
    {p q : Publisher}
    {excused : Prop}
    {h : LinkHost}
    (sound : HostSound p excused h)
    (running : h.phase.isRunning = true)
    (some : h.server.zone.records ≠ [])
    (same : q.SameName p) :
    (h.handle .running (mdnsPacket (probeQuery q.fqdn q.records))).2 =
      [.unicast (responseMsg h.server.zone.records)] := by
  have alive : h.phase ≠ .failed := by
    intro failed
    rw [failed] at running
    cases running
  rw [← sound.zone.answerQuery_probe same some q.records]
  simp [LinkHost.handle, alive, MdnsServer.handlePacket, mdnsPacket,
    probeQuery, probeHdr]

theorem Timed.dispatch
    (timed : Timed ps latency link)
    (sound : Sound ps link)
    {receipt : Receipt ι}
    (member : receipt ∈ link.inHand) :
    Timed ps latency (link.step ps (.dispatch receipt)) := by
  have host := sound.hosts receipt.host
  have acts := acted_handle (link.hosts receipt.host) receipt.state
    receipt.carried.packet
  have progress :
      Progress link.now (link.hosts receipt.host)
        ((link.hosts receipt.host).handle receipt.state
          receipt.carried.packet).1 :=
    progress_of_same acts.phase acts.times acts.kept
  have posted :
      Timed ps latency
        (link.send (((link.hosts receipt.host).handle receipt.state
          receipt.carried.packet).2.filterMap
            (link.answer receipt.host receipt.carried.source))) := by
    refine timed.send ?_
    intro carried answers
    obtain ⟨reply, -, carries⟩ := List.mem_filterMap.mp answers
    cases reply with
    | multicast msg =>
        cases carries
        rfl
    | unicast msg =>
        obtain ⟨querier, -, rfl⟩ := Option.map_eq_some_iff.mp carries
        rfl
  have replaced :
      Timed ps latency
        ((link.send (((link.hosts receipt.host).handle receipt.state
          receipt.carried.packet).2.filterMap
            (link.answer receipt.host receipt.carried.source))).setHost
          receipt.host ((link.hosts receipt.host).handle receipt.state
            receipt.carried.packet).1) := by
    refine posted.setHost ?_ ?_ (fun _ => progress) ?_ ?_
    · rw [acts.zone]
      exact timed.zones receipt.host
    · intro probing
      exact (timed.scheduled receipt.host probing).congr acts.phase acts.times
    · rw [acts.phase, acts.times]
      exact posted.probes receipt.host
    · rw [acts.phase]
      exact id
  refine replaced.record ?_ ?_
  · intro probing
    have read := timed.inHand receipt member probing
    rw [Link.hosts_setHost_self]
    exact ⟨read.progress progress,
      settles_act host (timed.scheduled receipt.host probing) read acts⟩
  · intro loaded querier sentAt probe same
    have running := (sound.inHand receipt member).2 loaded
    have some := timed.zones receipt.host
    have reply := handle_running_probe host running some same
    refine ⟨
      { source := receipt.host
        dest := querier
        sentAt := link.now
        packet :=
          mdnsPacket
            (responseMsg (link.hosts receipt.host).server.zone.records) },
      ?_, rfl, rfl, host.zone.reacts_responseMsg same some⟩
    refine List.mem_append_right _ ?_
    rw [loaded, probe, probeAt, reply]
    exact List.mem_singleton.mpr rfl

theorem Timed.receive
    (timed : Timed ps latency link)
    {i : ι}
    {carried : Carried ι}
    (sent : carried ∈ link.sent) :
    Timed ps latency (link.step ps (.receive i carried)) := by
  refine
    { timed with
      inHand := ?_ }
  intro receipt member
  rcases List.mem_append.mp member with before | new
  · exact timed.inHand receipt before
  · rw [List.mem_singleton.mp new]
    intro probing
    have scheduled := timed.scheduled i probing
    show ReadInTime link.now (link.hosts i) _
    refine ⟨timed.sent carried sent, le_refl _, ?_, ?_, ?_⟩
    · intro pending notDelayed
      exact absurd ((MainPhase.state_eq_pending_iff _).mp pending) notDelayed
    · intro notRunning running
      exact absurd ((MainPhase.state_eq_running_iff _).mpr running) notRunning
    · intro loaded
      have running := (MainPhase.state_eq_running_iff _).mp loaded
      exact ⟨running, (scheduled.running running).2.1⟩

theorem Timed.refresh
    (timed : Timed ps latency link)
    {i : ι}
    {addrs : List AddrEntry}
    (some : (ps i).recordsFor addrs ≠ []) :
    Timed ps latency (link.step ps (.refresh i addrs)) := by
  have zone :
      ((link.hosts i).refresh (ps i) addrs).server.zone.records ≠ [] := by
    unfold LinkHost.refresh
    cases same : sameRecords (link.hosts i).server.zone.records
        ((ps i).toWatchConfig.recordsFor addrs) with
    | true =>
        rw [refreshAddresses_of_same same]
        exact timed.zones i
    | false =>
        rw [refreshAddresses_of_changed same]
        exact some
  refine timed.setHost zone ?_ ?_ (timed.probes i) (fun failed => failed)
  · intro probing
    exact (timed.scheduled i probing).congr rfl rfl
  · intro _
    exact progress_of_same rfl rfl (fun flag => flag)

theorem Timed.publish (timed : Timed ps latency link) (i : ι) :
    Timed ps latency (link.step ps (.publish i)) := by
  have posted :
      Timed ps latency
        (link.send
          ((link.hosts i).outbox.head?.toList.map (link.multicast i))) := by
    refine timed.send ?_
    intro carried member
    obtain ⟨msg, -, rfl⟩ := List.mem_map.mp member
    rfl
  refine posted.setHost (timed.zones i) ?_ ?_ (posted.probes i)
    (fun failed => failed)
  · intro probing
    exact (timed.scheduled i probing).congr rfl rfl
  · intro _
    exact progress_of_same rfl rfl (fun flag => flag)

/-- Every timely step keeps the invariant. -/
theorem timed_step
    (link : Link ι)
    (action : LinkAction ι)
    (timely : link.Timely ps latency action)
    (invariant : Sound ps link ∧ Timed ps latency link) :
    Sound ps (link.step ps action) ∧
      Timed ps latency (link.step ps action) := by
  obtain ⟨possible, inTime⟩ := timely
  obtain ⟨sound, timed⟩ := invariant
  refine ⟨sound_step link action possible sound, ?_⟩
  cases action with
  | advance ms =>
      exact timed.advance inTime.1 inTime.2
  | wake i =>
      exact timed.wake sound inTime
  | receive i carried =>
      exact timed.receive possible.1
  | dispatch receipt =>
      exact timed.dispatch sound possible
  | foreign dest packet =>
      refine timed.send ?_
      intro carried member
      rw [List.mem_singleton.mp member]
  | refresh i addrs =>
      exact timed.refresh inTime
  | publish i =>
      exact timed.publish i

/-- Every timely run keeps the link sound and on time. -/
theorem timed_run
    {actions : List (LinkAction ι)}
    (timely : AllSteps (Link.step ps) (Link.Timely ps latency)
      (Link.start ps) actions) :
    Sound ps (actions.foldl (Link.step ps) (Link.start ps)) ∧
      Timed ps latency (actions.foldl (Link.step ps) (Link.start ps)) :=
  timely.invariant timed_step ⟨sound_start ps, timed_start ps latency⟩

end Network

section Owners

variable
  {ι : Type}
  {ps : ι → Publisher}
  {latency : Nat}
  {link : Link ι}
  {i j : ι}

/-- What was sent long enough ago was acted on by a host that runs. -/
theorem Timed.delivered_of_running
    (timed : Timed ps latency link)
    (running : link.Running i)
    {carried : Carried ι}
    (sent : carried ∈ link.sent)
    (reaches : carried.For i)
    (early : carried.sentAt + latency < link.now) :
    Delivered latency link i carried := by
  rcases timed.delivered carried sent i reaches with failed | delivered | late
  · rw [Link.Running, failed] at running
    cases running
  · exact delivered
  · omega

/-- A host that runs saw no conflict in time: it read the packet before it
probed, or acted on it after it had made up its mind. -/
theorem Timed.missed
    (timed : Timed ps latency link)
    (probes : (ps i).skipProbe = false)
    (running : link.Running i)
    {carried : Carried ι}
    (sent : carried ∈ link.sent)
    (reaches : carried.For i)
    (early : carried.sentAt + latency < link.now)
    (reacts : (ps i).server.Reacts carried.packet) :
    carried.sentAt ≤ (link.hosts i).times.probing ∨
      (link.hosts i).times.checked ≤ carried.sentAt + latency := by
  obtain ⟨entry, handled, rfl, rfl, inTime⟩ :=
    timed.delivered_of_running running sent reaches early
  obtain ⟨read, settles⟩ := timed.handled entry handled probes
  rcases settles.conflict reacts with lost | pending | ⟨-, checked⟩
  · rw [LinkHost.Lost, MainPhase.isChecked_of_isRunning running] at lost
    cases lost.1
  · have notDelayed := MainPhase.ne_delayed_of_isRunning running
    exact Or.inl (read.sent.trans (read.pending pending notDelayed))
  · exact Or.inr (checked.trans inTime)

/-- The times of a host that runs. -/
theorem Timed.times_of_running
    (timed : Timed ps latency link)
    (probes : (ps i).skipProbe = false)
    (running : link.Running i) :
    let times := (link.hosts i).times
    times.probing ≤ times.probe 0 ∧
      times.probe 0 + 250 ≤ times.probe 1 ∧
      times.probe 1 < times.probe 0 + 500 ∧
      times.probe 1 + 250 ≤ times.probe 2 ∧
      times.probe 2 < times.probe 1 + 500 ∧
      times.probe 2 + 250 ≤ times.checked ∧
      times.checked ≤ times.running ∧
      times.running < times.probe 2 + 500 ∧
      times.running ≤ link.now := by
  have scheduled := timed.scheduled i probes
  have spaced :=
    scheduled.spaced (MainPhase.ne_delayed_of_isRunning running)
  have checked :=
    scheduled.checked (MainPhase.isChecked_of_isRunning running)
  have runs := scheduled.running running
  rw [MainPhase.probes_of_isRunning running] at spaced
  exact ⟨spaced.first (by decide), spaced.apart 0 (by decide),
    spaced.close 0 (by decide), spaced.apart 1 (by decide),
    spaced.close 1 (by decide), checked.1, runs.1, runs.2.2, runs.2.1⟩

/-- The probes of a host that runs were sent. -/
theorem Timed.probeAt_of_running
    (timed : Timed ps latency link)
    (probes : (ps i).skipProbe = false)
    (running : link.Running i)
    {k : Nat}
    (below : k < probeCount) :
    probeAt ps i ((link.hosts i).times.probe k) ∈ link.sent := by
  refine timed.probes i probes k ?_
  rw [MainPhase.probes_of_isRunning running]
  exact below

/-- A host that ran before the last probe of another was sent has answered it
in time, so the other does not run. -/
theorem Timed.defends
    (timed : Timed ps latency link)
    (quick : 2 * latency < probeInterval)
    (same : (ps i).SameName (ps j))
    (probes : (ps i).skipProbe = false)
    (defends : (ps j).skipProbe = false)
    (running : link.Running i)
    (defender : link.Running j) :
    (link.hosts i).times.probe 2 ≤ (link.hosts j).times.running := by
  by_contra before
  have interval : probeInterval = 250 := rfl
  have times := timed.times_of_running probes running
  dsimp only at times
  have sent := timed.probeAt_of_running probes running (k := 2) (by decide)
  obtain ⟨entry, handled, rfl, probe, inTime⟩ :=
    timed.delivered_of_running defender sent (Or.inl rfl)
      (show (link.hosts i).times.probe 2 + latency < link.now by omega)
  obtain ⟨read, settles⟩ := timed.handled entry handled defends
  have sentAt : entry.1.carried.sentAt = (link.hosts i).times.probe 2 := by
    rw [probe]
    rfl
  have handledIn : entry.2 ≤ (link.hosts i).times.probe 2 + latency := inTime
  have readAfter := read.sent
  have readBefore := settles.read
  -- the defender was running when it read the probe
  have loaded : entry.1.state = .running := by
    by_contra notRunning
    have late := read.waiting notRunning defender
    omega
  obtain ⟨answer, answered, toQuerier, moment, reacts⟩ :=
    timed.answered entry handled loaded i _ probe same
  rcases timed.missed probes running answered (Or.inr toQuerier) (by omega)
      reacts with tooEarly | tooLate
  · omega
  · omega

/-- Two publishers of one name whose proposed records differ do not both
run. -/
theorem Timed.not_both_running
    (timed : Timed ps latency link)
    (quick : 2 * latency < probeInterval)
    (same : (ps i).SameName (ps j))
    (beats : (ps i).Beats (ps j))
    (first : (ps i).skipProbe = false)
    (second : (ps j).skipProbe = false) :
    ¬ (link.Running i ∧ link.Running j) := by
  rintro ⟨running, other⟩
  have interval : probeInterval = 250 := rfl
  have times := timed.times_of_running first running
  have otherTimes := timed.times_of_running second other
  dsimp only at times otherTimes
  have reacts := (reacts_probe_iff (ps j) (ps i)).mpr ⟨same, beats⟩
  have missed {k : Nat} (below : k < probeCount)
      (early : (link.hosts i).times.probe k + latency < link.now) :=
    timed.missed second other
      (timed.probeAt_of_running first running below) (Or.inl rfl) early reacts
  have missedFirst := missed (k := 0) (by decide) (by omega)
  have missedSecond := missed (k := 1) (by decide) (by omega)
  have missedThird := missed (k := 2) (by decide) (by omega)
  have defended :=
    timed.defends quick same first second running other
  have defendedToo :=
    timed.defends quick (equalFold_symm same) second first other running
  simp only [probeAt] at missedFirst missedSecond missedThird
  omega

variable [DecidableEq ι]

end Owners

section Rivals

instance (s : MdnsServer) (msg : DnsMsg) : Decidable (s.AnswersProbe msg) :=
  inferInstanceAs
    (Decidable ((_ ∧ _ ∧ _) ∧ _ ∧ ∃ rr ∈ _, _))

instance (s : MdnsServer) (msg : DnsMsg) : Decidable (s.OutprobesUs msg) :=
  inferInstanceAs
    (Decidable ((_ ∧ _ ∧ _) ∧ _ ∧ (∃ q ∈ _, _) ∧ _))

instance (s : MdnsServer) (packet : Packet) : Decidable (s.Reacts packet) :=
  inferInstanceAs
    (Decidable
      (∃ msg ∈ packet.msg, s.AnswersProbe msg ∨ s.OutprobesUs msg))

instance (now : Nat) (h : LinkHost) : Decidable (h.sleptLongEnough now) := by
  unfold LinkHost.sleptLongEnough
  split <;> infer_instance

instance (later : Nat) (h : LinkHost) : Decidable (h.notTooLate later) := by
  unfold LinkHost.notTooLate
  split <;> infer_instance

variable {ι : Type} [DecidableEq ι] [Fintype ι]

instance (carried : Carried ι) (i : ι) : Decidable (carried.For i) :=
  inferInstanceAs (Decidable (_ ∨ _))

instance (link : Link ι) (i : ι) (carried : Carried ι) :
    Decidable (link.ActedOn i carried) :=
  inferInstanceAs (Decidable (∃ entry ∈ link.handled, _ ∧ _))

instance (ps : ι → Publisher) (link : Link ι) (action : LinkAction ι) :
    Decidable (link.Possible ps action) := by
  unfold Link.Possible
  split <;> infer_instance

instance
    (ps : ι → Publisher)
    (latency : Nat)
    (link : Link ι)
    (action : LinkAction ι) :
    Decidable (link.Timely ps latency action) := by
  unfold Link.Timely
  refine @instDecidableAnd _ _ _ ?_
  split <;> infer_instance

/-- Two publishers get one message. -/
def deliverToBoth
    (first second : Fin 2)
    (carried : Carried (Fin 2)) :
    List (LinkAction (Fin 2)) :=
  [.receive first carried,
    .dispatch
      { host := first
        carried := carried
        readAt := carried.sentAt
        state := .probing },
    .receive second carried,
    .dispatch
      { host := second
        carried := carried
        readAt := carried.sentAt
        state := .probing }]

/-- Two publishers start to probe; the second one gets the probes of the first
one at once and loses. -/
def timelyRace (first second : Fin 2) : List (LinkAction (Fin 2)) :=
  let deliver sentAt :=
    deliverToBoth first second (probeAt rivals first sentAt)
  [.wake first, .wake second] ++
    [.wake first] ++ deliver 0 ++
    [.advance 250, .wake first] ++ deliver 250 ++
    [.advance 260, .wake first] ++ deliver 510 ++
    [.advance 250, .wake first, .wake first]

end Rivals

end DnsServices.MdnsPublisher
