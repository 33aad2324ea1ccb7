import Mathlib.Data.List.Chain
import DnsServices.SupervisorLoop

namespace DnsServices.Microdoh3

open Shared Bootstrap Runs

/-!
# When the supervisor acts

Over whole runs of the main loop: the resolve page is written only when the
weights have moved and at most every two seconds, the bootstrap resolver is
asked at most every thirty seconds, and a restart that is due is not kept
waiting by the poll.
-/

section Publishing

/-- The entries that a call of `publish` writes. -/
def entriesOf (call : Instant × Publish) : List (IpAddr × UInt32) :=
  call.2.addrs.zip call.2.weights

/-- A later call writes other entries, and not before the weights were due
again. -/
def MovesOn (call next : Instant × Publish) : Prop :=
  entriesOf call ≠ entriesOf next ∧ call.1 + weightInterval ≤ next.1

/-- The page shows what the supervisor takes for published. -/
structure QuietLoop (loop : SupervisorLoop) : Prop where
  shown : loop.publishes.getLast?.map entriesOf = some loop.published
  moves : loop.publishes.IsChain MovesOn
  due : ∀ call ∈ loop.publishes.getLast?,
    call.1 + weightInterval ≤ loop.nextWeights

theorem quietLoop_step
    {cfg : LoopConfig}
    {turn : LoopTurn}
    {loop next : SupervisorLoop}
    (step : LoopStep cfg turn loop next)
    (quiet : QuietLoop loop) :
    QuietLoop next := by
  cases step with
  | supervise supervisor =>
      exact { quiet with }
  | begin_ idle expired started =>
      exact { quiet with }
  | beginFails idle expired =>
      exact { quiet with }
  | answered pending =>
      exact { quiet with }
  | reads pending =>
      exact { quiet with }
  | resends pending again =>
      exact { quiet with }
  | timesOut pending =>
      exact { quiet with }
  | @publishes fresh due computed changed =>
      have entries :
          entriesOf
              (turn.now,
                publishWeights fresh cfg.cpus.length turn.monoNowSecs
                  turn.monoNowSecsLater) = fresh :=
        (List.zip_of_prod rfl rfl).symm
      refine
        { shown := ?_
          moves := ?_
          due := ?_ }
      · rw [List.getLast?_concat, Option.map_some, entries]
      · rw [List.isChain_append]
        refine ⟨quiet.moves, List.isChain_singleton _, ?_⟩
        intro last isLast call isCall
        have shown := quiet.shown
        rw [Option.mem_def.mp isLast, Option.map_some, Option.some_inj] at shown
        rw [List.head?_cons, Option.mem_some] at isCall
        subst isCall
        refine ⟨?_, (quiet.due last isLast).trans due⟩
        rw [shown, entries]
        exact Ne.symm changed
      · intro call isLast
        rw [List.getLast?_concat, Option.mem_some] at isLast
        subst isLast
        exact le_refl _
  | weighs ended due =>
      refine { quiet with due := ?_ }
      intro call isLast
      have before := (quiet.due call isLast).trans due
      exact before.trans
        (Int.le_add_of_nonneg_right (Int.natCast_nonneg weightInterval))
  | ends supervisor ended readable =>
      exact { quiet with }

/-- A loop that has just forked its workers is quiet. -/
theorem quietLoop_start
    (cfg : LoopConfig)
    (supervisor : Supervisor)
    (state : ResolveState)
    (remotes : List SocketAddr)
    {publishNow now : Instant}
    (preforked : publishNow ≤ now)
    (monoNowSecs monoNowSecsLater : UInt64) :
    QuietLoop
      (SupervisorLoop.start cfg supervisor state remotes publishNow now
        monoNowSecs monoNowSecsLater) where
  shown := by
    simp only [SupervisorLoop.start, List.getLast?_singleton, Option.map_some,
      entriesOf, Option.some_inj]
    refine List.ext_getElem (by simp) ?_
    simp
  moves := List.isChain_singleton _
  due := by
    simp only [SupervisorLoop.start, List.getLast?_singleton, Option.mem_some,
      forall_eq']
    exact Int.add_le_add_right preforked _

/-- Over every run, the page shows the weights that the supervisor compares
with, each publish writes other entries than the one before, and two publishes
are at least two seconds apart. -/
theorem quietLoop_run
    (cfg : LoopConfig)
    (supervisor : Supervisor)
    (state : ResolveState)
    (remotes : List SocketAddr)
    {publishNow now : Instant}
    (preforked : publishNow ≤ now)
    (monoNowSecs monoNowSecsLater : UInt64)
    (turns : List LoopTurn) :
    QuietLoop
      ((SupervisorLoop.start cfg supervisor state remotes publishNow now
        monoNowSecs monoNowSecsLater).run cfg turns) := by
  have start := quietLoop_start cfg supervisor state remotes preforked
    monoNowSecs monoNowSecsLater
  generalize SupervisorLoop.start cfg supervisor state remotes publishNow now
    monoNowSecs monoNowSecsLater = loop at start ⊢
  induction turns generalizing loop with
  | nil =>
      exact start
  | cons turn rest inductionHypothesis =>
      exact inductionHypothesis _ (invariant_turn quietLoop_step start)

/-- A supervisor with one literal address. -/
theorem quietLoop_run_literal :
    QuietLoop
      ((SupervisorLoop.start literalLoop Supervisor.initial
        { addrs := [.v4 192 0 2 1], expiresAt := fromSecs (86400 * 365) }
        [{ ip := .v4 192 0 2 1, port := 443 }] 0 0 10 10).run literalLoop
        [scoredTurn]) :=
  quietLoop_run literalLoop Supervisor.initial _ _ (le_refl 0) 10 10
    [scoredTurn]

end Publishing

section Refreshing

/-- Half a minute lies between two moments. -/
def WellApart (moment next : Instant) : Prop :=
  moment + fromSecs minTtl.toNat ≤ next

/-- The queries that a refresh may still send. -/
def queriesLeft : Option AsyncResolve → Nat
  | some resolver => 2 * (maxAttempts - resolver.attempts)
  | none => 0

/-- The refreshes of a run, up to a moment. -/
structure RefreshLoop (now : Instant) (loop : SupervisorLoop) : Prop where
  /-- The last refresh was begun at the moment or before. -/
  begun : ∀ moment ∈ loop.refreshes.getLast?, moment ≤ now
  /-- The next one comes half a minute later at the earliest. -/
  rests : loop.pending = none → ∀ moment ∈ loop.refreshes.getLast?,
    WellApart moment loop.nextRefresh
  apart : loop.refreshes.IsChain WellApart

/-- What has happened up to a moment since an earlier state of the loop, in
which the addresses were good up to a limit. -/
structure RefreshesSince
    (before : SupervisorLoop)
    (limit now : Instant)
    (loop : SupervisorLoop) : Prop where
  /-- The next refresh waits for the limit. -/
  idle : loop.pending = none → limit ≤ loop.nextRefresh
  /-- A refresh that is under way has waited. -/
  busy : loop.pending ≠ none → limit ≤ now
  /-- A refresh sends two queries in each of its rounds. -/
  queries :
    loop.sent.length + queriesLeft loop.pending +
        2 * maxAttempts * before.refreshes.length ≤
      before.sent.length + 2 * maxAttempts * loop.refreshes.length
  begun : ∃ moments, loop.refreshes = before.refreshes ++ moments ∧
    ∀ moment ∈ moments, limit ≤ moment

/-- No answer is used for less than the minimum lifetime. -/
theorem minTtl_le_finish (resolver : AsyncResolve) :
    minTtl.toNat ≤ resolver.finish.2.toNat := by
  unfold AsyncResolve.finish
  dsimp only
  rw [toNat_max]
  exact Nat.le_max_right _ _

theorem attempts_foldl_receive
    (parse : Bytes → Option Packet)
    (resolver : AsyncResolve)
    (datagrams : List Bytes) :
    (datagrams.foldl (AsyncResolve.receive parse) resolver).attempts =
      resolver.attempts := by
  induction datagrams generalizing resolver with
  | nil =>
      rfl
  | cons buf rest inductionHypothesis =>
      rw [List.foldl_cons, inductionHypothesis]
      rcases resolver.receive_cases parse buf with
        ⟨_, same⟩ | ⟨_, _, same⟩ | same
      · rw [same]
      · rw [same]
      · rw [same]

/-- What the replies of a turn resolve: addresses and their lifetime. -/
def SupervisorLoop.resolves
    (cfg : LoopConfig)
    (loop : SupervisorLoop)
    (turn : LoopTurn) : Option Answer :=
  match loop.pending with
  | none => none
  | some resolver =>
      if loop.readable then
        match (resolver.onReadable cfg.dns.parse turn.datagrams).2 with
        | some (.ok answer) => some answer
        | _ => none
      else
        none

variable
  {cfg : LoopConfig}
  {turn : LoopTurn}
  {limit : Instant}
  {before loop next : SupervisorLoop}

/-- A refresh that begins, whether it can or not. -/
theorem RefreshLoop.begins
    (refresh : RefreshLoop turn.now loop)
    (idle : loop.pending = none)
    (expired : loop.nextRefresh ≤ turn.now) :
    (loop.refreshes ++ [turn.now]).IsChain WellApart := by
  rw [List.isChain_append]
  refine ⟨refresh.apart, List.isChain_singleton _, ?_⟩
  intro last isLast begun isNow
  rw [List.head?_cons, Option.mem_some] at isNow
  subst isNow
  exact (refresh.rests idle last isLast).trans expired

/-- When a refresh is over, the next one waits at least half a minute. -/
theorem RefreshLoop.ends
    (refresh : RefreshLoop turn.now loop)
    {span : Duration}
    (long : fromSecs minTtl.toNat ≤ span) :
    ∀ moment ∈ loop.refreshes.getLast?,
      WellApart moment (turn.now + span) := by
  intro moment isLast
  exact Int.add_le_add (refresh.begun moment isLast) (Int.ofNat_le.mpr long)

/-- A failed refresh waits no less than the minimum lifetime. -/
theorem minTtl_le_retryInterval : fromSecs minTtl.toNat ≤ retryInterval := by
  decide

theorem refreshLoop_step
    (step : LoopStep cfg turn loop next)
    (refresh : RefreshLoop turn.now loop) :
    RefreshLoop turn.now next := by
  cases step with
  | supervise supervisor =>
      exact { refresh with }
  | begin_ idle expired started =>
      refine
        { begun := ?_
          rests := nofun
          apart := refresh.begins idle expired }
      intro moment isLast
      rw [List.getLast?_concat, Option.mem_some] at isLast
      exact isLast.ge
  | beginFails idle expired =>
      refine
        { begun := ?_
          rests := ?_
          apart := refresh.begins idle expired }
      · intro moment isLast
        rw [List.getLast?_concat, Option.mem_some] at isLast
        exact isLast.ge
      · intro _ moment isLast
        rw [List.getLast?_concat, Option.mem_some] at isLast
        subst isLast
        exact Int.add_le_add_left (Int.ofNat_le.mpr minTtl_le_retryInterval) _
  | answered pending =>
      refine { refresh with rests := fun _ => refresh.ends ?_ }
      exact Nat.mul_le_mul_right _ (minTtl_le_finish _)
  | reads pending =>
      exact { refresh with rests := nofun }
  | resends pending again =>
      exact { refresh with rests := nofun }
  | timesOut pending =>
      exact
        { refresh with
          rests := fun _ => refresh.ends minTtl_le_retryInterval }
  | publishes due computed changed =>
      exact { refresh with }
  | weighs ended due =>
      exact { refresh with }
  | ends supervisor ended readable =>
      exact { refresh with }

/-- A refresh begins once the limit is over. -/
theorem RefreshesSince.begins
    (since : RefreshesSince before limit turn.now loop)
    (idle : loop.pending = none)
    (expired : loop.nextRefresh ≤ turn.now) :
    limit ≤ turn.now ∧
      ∃ moments, loop.refreshes ++ [turn.now] = before.refreshes ++ moments ∧
        ∀ moment ∈ moments, limit ≤ moment := by
  have reached : limit ≤ turn.now := (since.idle idle).trans expired
  obtain ⟨moments, shape, waited⟩ := since.begun
  refine ⟨reached, moments ++ [turn.now], ?_, ?_⟩
  · rw [shape, List.append_assoc]
  · intro moment member
    rcases List.mem_append.mp member with earlier | last
    · exact waited moment earlier
    · rw [List.mem_singleton.mp last]
      exact reached

theorem refreshesSince_step
    (step : LoopStep cfg turn loop next)
    (since : RefreshesSince before limit turn.now loop) :
    RefreshesSince before limit turn.now next := by
  have queries := since.queries
  have later (span : Duration) {resolver : AsyncResolve}
      (pending : loop.pending = some resolver) : limit ≤ turn.now + span :=
    (since.busy (by simp [pending])).trans
      (Int.le_add_of_nonneg_right (Int.natCast_nonneg span))
  cases step with
  | supervise supervisor =>
      exact { since with }
  | begin_ idle expired started =>
      obtain ⟨-, -, attempts, sent⟩ := start_spec started
      obtain ⟨reached, begun⟩ := since.begins idle expired
      rw [idle] at queries
      refine
        { idle := nofun
          busy := fun _ => reached
          queries := ?_
          begun := begun }
      simp only [sent, attempts, AsyncResolve.sendBoth, List.length_append,
        List.length_cons, List.length_nil, queriesLeft, maxAttempts]
        at queries ⊢
      omega
  | beginFails idle expired =>
      obtain ⟨reached, begun⟩ := since.begins idle expired
      rw [idle] at queries
      refine
        { idle := ?_
          busy := fun _ => reached
          queries := ?_
          begun := begun }
      · intro _
        exact reached.trans
          (Int.le_add_of_nonneg_right (Int.natCast_nonneg retryInterval))
      · simp only [idle, List.length_append, List.length_cons,
          List.length_nil, queriesLeft, maxAttempts] at queries ⊢
        omega
  | answered pending =>
      rw [pending] at queries
      refine
        { since with
          idle := fun _ => later _ pending
          busy := nofun
          queries := ?_ }
      simp only [queriesLeft] at queries ⊢
      omega
  | reads pending =>
      rw [pending] at queries
      refine
        { since with
          idle := nofun
          busy := fun _ => since.busy (by simp [pending])
          queries := ?_ }
      dsimp only
      rw [queriesLeft, attempts_foldl_receive]
      exact queries
  | resends pending again =>
      rw [pending] at queries
      refine
        { since with
          idle := nofun
          busy := fun _ => since.busy (by simp [pending])
          queries := ?_ }
      simp only [AsyncResolve.sendBoth, List.length_append, List.length_cons,
        List.length_nil, queriesLeft, maxAttempts] at queries again ⊢
      omega
  | timesOut pending =>
      rw [pending] at queries
      refine
        { since with
          idle := fun _ => later _ pending
          busy := nofun
          queries := ?_ }
      simp only [queriesLeft] at queries ⊢
      omega
  | publishes due computed changed =>
      exact { since with }
  | weighs ended due =>
      exact { since with }
  | ends supervisor ended readable =>
      exact { since with }

/-- Time goes on between the turns. -/
def Onward (loop : SupervisorLoop) (turn : LoopTurn) : Prop :=
  loop.clock ≤ turn.now

/-- A turn leaves the loop alone or ends at its own clock. -/
theorem clock_turn
    (cfg : LoopConfig)
    (loop : SupervisorLoop)
    (turn : LoopTurn) :
    loop.turn cfg turn = loop ∨ (loop.turn cfg turn).clock = turn.now := by
  unfold SupervisorLoop.turn
  split
  · exact Or.inl rfl
  · dsimp only
    split
    · exact Or.inr rfl
    · exact Or.inr rfl

theorem refreshLoop_turn
    (loop : SupervisorLoop)
    (turn : LoopTurn)
    (onward : Onward loop turn)
    (refresh : RefreshLoop loop.clock loop) :
    RefreshLoop (loop.turn cfg turn).clock (loop.turn cfg turn) := by
  rcases clock_turn cfg loop turn with same | clock
  · rw [same]
    exact refresh
  · rw [clock]
    refine invariant_turn refreshLoop_step ?_
    exact
      { refresh with
        begun := fun moment isLast =>
          (refresh.begun moment isLast).trans onward }

/-- Every turn whose clock goes forward keeps the counts within their bounds. -/
theorem refreshesSince_turn
    (loop : SupervisorLoop)
    (turn : LoopTurn)
    (onward : Onward loop turn)
    (since : RefreshesSince before limit loop.clock loop) :
    RefreshesSince before limit (loop.turn cfg turn).clock
      (loop.turn cfg turn) := by
  rcases clock_turn cfg loop turn with same | clock
  · rw [same]
    exact since
  · rw [clock]
    refine invariant_turn refreshesSince_step ?_
    exact
      { since with
        busy := fun pending => (since.busy pending).trans onward }

/-- Nothing has happened yet. -/
theorem refreshesSince_refl
    (idle : loop.pending = none)
    (rests : limit ≤ loop.nextRefresh)
    (now : Instant) :
    RefreshesSince loop limit now loop where
  idle := fun _ => rests
  busy := fun pending => absurd idle pending
  queries := by
    rw [idle]
    exact le_refl _
  begun := ⟨[], by simp, nofun⟩

/-- The moments at which some turns begin a refresh. -/
def SupervisorLoop.begunIn
    (cfg : LoopConfig)
    (loop : SupervisorLoop)
    (turns : List LoopTurn) : List Instant :=
  (loop.run cfg turns).refreshes.drop loop.refreshes.length

/-- Turns that begin while no refresh is under way send six queries for each
refresh they begin, and begin none before it is time. -/
theorem refreshesSince_run
    (idle : loop.pending = none)
    (rests : limit ≤ loop.nextRefresh)
    {turns : List LoopTurn}
    (onward : AllSteps (SupervisorLoop.turn cfg) Onward loop turns) :
    (loop.run cfg turns).sent.length ≤
        loop.sent.length + 6 * (loop.begunIn cfg turns).length ∧
      ∀ moment ∈ loop.begunIn cfg turns, limit ≤ moment := by
  have since :
      RefreshesSince loop limit (loop.run cfg turns).clock
        (loop.run cfg turns) :=
    onward.invariant refreshesSince_turn
      (refreshesSince_refl idle rests loop.clock)
  obtain ⟨moments, shape, waited⟩ := since.begun
  have begun : loop.begunIn cfg turns = moments := by
    rw [SupervisorLoop.begunIn, shape, List.drop_left]
  have queries := since.queries
  rw [shape, List.length_append, maxAttempts] at queries
  rw [begun]
  exact ⟨by omega, waited⟩

/-- A loop that was left begins nothing. -/
theorem run_of_ended
    (ended : loop.ended = true)
    (turns : List LoopTurn) :
    loop.run cfg turns = loop := by
  induction turns with
  | nil =>
      rfl
  | cons turn rest inductionHypothesis =>
      have same : loop.turn cfg turn = loop := by
        rw [SupervisorLoop.turn, if_pos ended]
      rw [SupervisorLoop.run, List.foldl_cons, same]
      exact inductionHypothesis

/-- Weighing leaves the refresh alone. -/
theorem refresh_weigh (loop : SupervisorLoop) :
    (loop.weigh cfg turn).pending = loop.pending ∧
      (loop.weigh cfg turn).nextRefresh = loop.nextRefresh ∧
        (loop.weigh cfg turn).refreshes = loop.refreshes := by
  unfold SupervisorLoop.weigh
  split
  · dsimp only
    split
    · exact ⟨rfl, rfl, rfl⟩
    · split
      · exact ⟨rfl, rfl, rfl⟩
      · exact ⟨rfl, rfl, rfl⟩
  · exact ⟨rfl, rfl, rfl⟩

/-- A turn that resolves addresses begins no refresh, and the next one waits
until they expire, unless the loop is left. -/
theorem turn_of_resolves
    {answer : Answer}
    (resolved : loop.resolves cfg turn = some answer) :
    (loop.turn cfg turn).refreshes = loop.refreshes ∧
      ((loop.turn cfg turn).ended = true ∨
        (loop.turn cfg turn).pending = none ∧
          (loop.turn cfg turn).nextRefresh =
            turn.now + fromSecs answer.2.toNat) := by
  unfold SupervisorLoop.turn
  split
  next ended =>
    exact ⟨rfl, Or.inl ended⟩
  next =>
    dsimp only
    split
    next =>
      exact ⟨rfl, Or.inl rfl⟩
    next =>
      -- the supervisor's part of the turn does not touch the refresh
      let reaped := (loop.restartDue turn).reap turn
      have same : reaped.resolves cfg turn = some answer := resolved
      change ((((reaped.beginRefresh cfg turn).readReplies cfg
            turn).checkDeadline turn).weigh cfg turn).refreshes =
          reaped.refreshes ∧
        (_ ∨ ((((reaped.beginRefresh cfg turn).readReplies cfg
            turn).checkDeadline turn).weigh cfg turn).pending = none ∧
          ((((reaped.beginRefresh cfg turn).readReplies cfg
            turn).checkDeadline turn).weigh cfg turn).nextRefresh = _)
      obtain ⟨pending, nextRefresh, refreshes⟩ :=
        @refresh_weigh cfg turn
          (((reaped.beginRefresh cfg turn).readReplies cfg
            turn).checkDeadline turn)
      rw [pending, nextRefresh, refreshes]
      generalize reaped = loop at same ⊢
      cases busy : loop.pending with
      | none =>
          rw [SupervisorLoop.resolves, busy] at same
          cases same
      | some resolver =>
          have going : loop.beginRefresh cfg turn = loop := by
            simp [SupervisorLoop.beginRefresh, busy]
          rw [SupervisorLoop.resolves, busy] at same
          dsimp only at same
          split at same
          next readable =>
            rcases onReadable_cases cfg.dns.parse resolver turn.datagrams with
              done | goesOn
            · rw [done] at same
              obtain rfl := Option.some.inj same
              rw [going]
              simp [SupervisorLoop.readReplies, busy, readable, done,
                SupervisorLoop.checkDeadline]
            · rw [goesOn] at same
              cases same
          next =>
            cases same

/-- What a turn resolves, no later refresh begins before it expires. -/
theorem le_begunIn_of_resolves
    {answer : Answer}
    (resolved : loop.resolves cfg turn = some answer)
    {turns : List LoopTurn}
    (onward : AllSteps (SupervisorLoop.turn cfg) Onward loop (turn :: turns)) :
    ∀ moment ∈ loop.begunIn cfg (turn :: turns),
      turn.now + fromSecs answer.2.toNat ≤ moment := by
  obtain ⟨refreshes, left | ⟨idle, waits⟩⟩ := turn_of_resolves resolved
  · have stopped := @run_of_ended cfg _ left turns
    intro moment begun
    rw [SupervisorLoop.begunIn, SupervisorLoop.run, List.foldl_cons] at begun
    rw [SupervisorLoop.run] at stopped
    rw [stopped, refreshes, List.drop_length] at begun
    cases begun
  · intro moment begun
    rw [SupervisorLoop.begunIn, ← refreshes] at begun
    exact (refreshesSince_run idle waits.ge onward.2).2 moment begun

/-- Moments that are well apart take their time. -/
theorem length_wellApart
    {moments : List Instant}
    (apart : moments.IsChain WellApart)
    {first last : Instant}
    (isFirst : first ∈ moments.head?)
    (isLast : last ∈ moments.getLast?) :
    first + fromSecs (minTtl.toNat * (moments.length - 1)) ≤ last := by
  induction moments generalizing first with
  | nil =>
      cases isFirst
  | cons moment rest inductionHypothesis =>
      rw [List.head?_cons, Option.mem_some] at isFirst
      subst isFirst
      cases rest with
      | nil =>
          rw [List.getLast?_singleton, Option.mem_some] at isLast
          subst isLast
          simp [fromSecs]
      | cons next others =>
          obtain ⟨gap, restApart⟩ := List.isChain_cons_cons.mp apart
          have later := inductionHypothesis restApart rfl (by
            rwa [List.getLast?_cons_cons] at isLast)
          rw [List.length_cons, Nat.add_sub_cancel] at later ⊢
          have grows :
              fromSecs (minTtl.toNat * (others.length + 1)) =
                fromSecs minTtl.toNat + fromSecs (minTtl.toNat * others.length) := by
            unfold fromSecs
            ring
          rw [List.length_cons, grows, Int.natCast_add, ← Int.add_assoc]
          exact (Int.add_le_add_right gap _).trans later

theorem refreshLoop_start
    (cfg : LoopConfig)
    (supervisor : Supervisor)
    (state : ResolveState)
    (remotes : List SocketAddr)
    (publishNow now : Instant)
    (monoNowSecs monoNowSecsLater : UInt64) :
    RefreshLoop now
      (SupervisorLoop.start cfg supervisor state remotes publishNow now
        monoNowSecs monoNowSecsLater) where
  begun := nofun
  rests := nofun
  apart := List.isChain_nil

/-- The refreshes of a run are spread out. -/
structure PacedRefreshes
    (cfg : LoopConfig)
    (expiresAt : Instant)
    (start : SupervisorLoop)
    (turns : List LoopTurn) : Prop where
  /-- Half a minute lies between two refreshes. -/
  apart : (start.run cfg turns).refreshes.IsChain WellApart
  /-- None begins before the answer of the startup has expired. -/
  startup : ∀ moment ∈ (start.run cfg turns).refreshes, expiresAt ≤ moment
  /-- None begins before what the loop resolved before it has expired. -/
  waits :
    ∀ front turn more,
      turns = front ++ turn :: more →
      ∀ answer, (start.run cfg front).resolves cfg turn = some answer →
        ∀ moment ∈ (start.run cfg front).begunIn cfg (turn :: more),
          turn.now + fromSecs answer.2.toNat ≤ moment
  /-- Wherever none is under way, what follows sends at most six queries for
  each that it begins. -/
  queries :
    ∀ front more,
      turns = front ++ more →
      (start.run cfg front).pending = none →
        (start.run cfg turns).sent.length ≤
          (start.run cfg front).sent.length +
            6 * ((start.run cfg front).begunIn cfg more).length
  /-- So they take their time together. -/
  spans : (start.run cfg turns).refreshes ≠ [] →
    expiresAt +
        fromSecs (30 * ((start.run cfg turns).refreshes.length - 1)) ≤
      (start.run cfg turns).clock

/-- The rest of a run whose clock does not run back. -/
theorem onward_of_append
    {start : SupervisorLoop}
    {front more : List LoopTurn}
    (onward :
      AllSteps (SupervisorLoop.turn cfg) Onward start (front ++ more)) :
    AllSteps (SupervisorLoop.turn cfg) Onward (start.run cfg front) more := by
  induction front generalizing start with
  | nil =>
      exact onward
  | cons turn rest inductionHypothesis =>
      exact inductionHypothesis onward.2

theorem run_append (start : SupervisorLoop) (front more : List LoopTurn) :
    start.run cfg (front ++ more) = (start.run cfg front).run cfg more :=
  List.foldl_append

/-- The bootstrap resolver is not flooded: refreshes begin at least half a
minute apart, each one not before the addresses last resolved have expired, and
each sends at most six queries. -/
theorem queries_run
    (cfg : LoopConfig)
    (supervisor : Supervisor)
    (state : ResolveState)
    (remotes : List SocketAddr)
    (publishNow now : Instant)
    (monoNowSecs monoNowSecsLater : UInt64)
    {turns : List LoopTurn}
    (onward :
      AllSteps (SupervisorLoop.turn cfg) Onward
        (SupervisorLoop.start cfg supervisor state remotes publishNow now
          monoNowSecs monoNowSecsLater) turns) :
    PacedRefreshes cfg state.expiresAt
      (SupervisorLoop.start cfg supervisor state remotes publishNow now
        monoNowSecs monoNowSecsLater) turns := by
  have refresh :=
    onward.invariant refreshLoop_turn
      (refreshLoop_start cfg supervisor state remotes publishNow now
        monoNowSecs monoNowSecsLater)
  have begunAll :
      ∀ moment ∈ (SupervisorLoop.start cfg supervisor state remotes publishNow
          now monoNowSecs monoNowSecsLater).begunIn cfg turns,
        state.expiresAt ≤ moment :=
    (refreshesSince_run rfl (le_refl _) onward).2
  refine
    { apart := refresh.apart
      startup := begunAll
      waits := ?_
      queries := ?_
      spans := ?_ }
  · rintro front turn more rfl answer resolved
    exact le_begunIn_of_resolves resolved (onward_of_append onward)
  · rintro front more rfl idle
    rw [run_append]
    exact (refreshesSince_run idle (le_refl _) (onward_of_append onward)).1
  · intro some
    have isFirst := List.head_mem_head? some
    have isLast := List.getLast_mem_getLast? some
    have spans := length_wellApart refresh.apart isFirst isLast
    have waited := begunAll _ (List.head_mem some)
    exact (Int.add_le_add_right waited _).trans
      (spans.trans (refresh.begun _ isLast))

/-- A loop that resolves `x.test`. -/
def resolvingLoop : LoopConfig :=
  { literalLoop with
    dns := AsyncResolve.xTestDns
    host := "x.test" }

/-- A turn that reads what the bootstrap socket holds. -/
def resolvingTurn (seconds : Nat) (datagrams : List Bytes) : LoopTurn :=
  { scoredTurn with
    now := fromSecs seconds
    datagrams := datagrams
    pollIn := true }

/-- The answer of the startup has expired: a refresh begins after two seconds,
and is answered after three, for a minute; so the next one begins when that is
over. -/
def resolvingTurns : List LoopTurn :=
  [resolvingTurn 2 [],
    resolvingTurn 3
      [[0, 0] ++ AsyncResolve.xTestReply 60 .aaaa,
        [0, 1] ++ AsyncResolve.xTestReply 60 .a],
    resolvingTurn 62 [], resolvingTurn 63 []]

theorem queries_run_resolving :
    let start :=
      SupervisorLoop.start resolvingLoop Supervisor.initial
        { addrs := [.v4 192 0 2 1], expiresAt := fromSecs 1 }
        [{ ip := .v4 192 0 2 1, port := 443 }] 0 0 10 10
    let loop := start.run resolvingLoop resolvingTurns
    loop.refreshes = [(fromSecs 2 : Instant), (fromSecs 63 : Instant)] ∧
      loop.sent.length = 4 ∧
      PacedRefreshes resolvingLoop (fromSecs 1) start resolvingTurns := by
  refine ⟨by decide +kernel, by decide +kernel, ?_⟩
  refine queries_run resolvingLoop Supervisor.initial
    { addrs := [.v4 192 0 2 1], expiresAt := fromSecs 1 }
    [{ ip := .v4 192 0 2 1, port := 443 }] 0 0 10 10 ?_
  refine ⟨?_, ?_, ?_, ?_, trivial⟩
  · exact (by decide +kernel : (0 : Int) ≤ fromSecs 2)
  · exact (by decide +kernel : (fromSecs 2 : Int) ≤ fromSecs 3)
  · exact (by decide +kernel : (fromSecs 3 : Int) ≤ fromSecs 62)
  · exact (by decide +kernel : (fromSecs 62 : Int) ≤ fromSecs 63)

end Refreshing

section Restarting

variable {s : Supervisor} {now : Instant}

@[simp] theorem pendingRestarts_spawnWorker
    (s : Supervisor)
    (cpu : UInt32)
    (childIdx : Nat)
    (fails : UInt32)
    (now : Instant)
    (fork : ForkResult) :
    (s.spawnWorker cpu childIdx fails now fork).pendingRestarts =
      s.pendingRestarts := by
  cases fork <;> rfl

/-- A restart takes its own entry and no other. -/
theorem pendingRestarts_restart
    (s : Supervisor)
    (cpu : UInt32)
    (now : Instant)
    (fork : ForkResult) :
    (s.restart cpu now fork).pendingRestarts = s.pendingRestarts.erase cpu := by
  unfold Supervisor.restart
  split
  next none =>
    rw [AList.lookup_eq_none] at none
    exact (KeyedItems.erase_of_notMem none).symm
  next =>
    simp

/-- A restart still pending was pending and was not among those carried out. -/
theorem lookup_foldl_restart
    {cpus : List UInt32}
    {forks : UInt32 → ForkResult}
    {cpu : UInt32}
    {r : Restart}
    (left :
      (cpus.foldl (fun s cpu => s.restart cpu now (forks cpu))
        s).pendingRestarts.lookup cpu = some r) :
    cpu ∉ cpus ∧ s.pendingRestarts.lookup cpu = some r := by
  induction cpus generalizing s with
  | nil =>
      exact ⟨List.not_mem_nil, left⟩
  | cons first rest inductionHypothesis =>
      obtain ⟨notLater, found⟩ := inductionHypothesis left
      rw [pendingRestarts_restart] at found
      have other : cpu ≠ first := by
        rintro rfl
        simp at found
      rw [AList.lookup_erase_ne other] at found
      exact ⟨by simp [other, notLater], found⟩

/-- After the restarts nothing is left that was due. -/
theorem lookup_restartDue
    {loop : SupervisorLoop}
    {turn : LoopTurn}
    {cpu : UInt32}
    {r : Restart}
    (left :
      (loop.restartDue turn).supervisor.pendingRestarts.lookup cpu = some r) :
    loop.supervisor.pendingRestarts.lookup cpu = some r ∧
      turn.restartNow < r.restartAt := by
  obtain ⟨notDue, found⟩ := lookup_foldl_restart left
  refine ⟨found, ?_⟩
  by_contra early
  refine notDue ?_
  unfold Supervisor.due
  rw [List.mem_map]
  refine ⟨⟨cpu, r⟩, List.mem_filter.mpr ⟨?_, ?_⟩, rfl⟩
  · exact AList.mem_lookup_iff.mp found
  · exact decide_eq_true (not_lt.mp early)

/-- A worker that was reaped is not restarted before it was reaped. -/
theorem lookup_scheduleChildExit
    {pid : Pid}
    {cpu : UInt32}
    {r : Restart}
    (left : (s.scheduleChildExit pid now).pendingRestarts.lookup cpu = some r) :
    s.pendingRestarts.lookup cpu = some r ∨ now ≤ r.restartAt := by
  unfold Supervisor.scheduleChildExit at left
  split at left
  next =>
    exact Or.inl left
  next child found =>
    dsimp only at left
    split at left
    next =>
      exact Or.inl left
    next =>
      rcases KeyedItems.lookup_of_lookup_insert left with ⟨-, rfl⟩ | old
      · exact Or.inr (Int.le_add_of_nonneg_right (Int.natCast_nonneg _))
      · exact Or.inl old

/-- A pending restart was so before, or comes no earlier than the exits just
reaped. -/
theorem lookup_reap
    {loop : SupervisorLoop}
    {turn : LoopTurn}
    {since : Instant}
    (after : ∀ exit ∈ turn.reaps, since ≤ exit.2)
    {cpu : UInt32}
    {r : Restart}
    (left : (loop.reap turn).supervisor.pendingRestarts.lookup cpu = some r) :
    loop.supervisor.pendingRestarts.lookup cpu = some r ∨
      since ≤ r.restartAt := by
  have each (exits : List (Pid × Instant)) (s : Supervisor)
      (after : ∀ exit ∈ exits, since ≤ exit.2)
      (left :
        (exits.foldl (fun s exit => s.scheduleChildExit exit.1 exit.2)
          s).pendingRestarts.lookup cpu = some r) :
      s.pendingRestarts.lookup cpu = some r ∨ since ≤ r.restartAt := by
    induction exits generalizing s with
    | nil =>
        exact Or.inl left
    | cons exit rest inductionHypothesis =>
        rw [List.forall_mem_cons] at after
        rcases inductionHypothesis _ after.2 left with before | later
        · rcases lookup_scheduleChildExit before with before | later
          · exact Or.inl before
          · exact Or.inr (after.1.trans later)
        · exact Or.inr later
  exact each turn.reaps
    { loop.supervisor with
      shutdown := loop.supervisor.shutdown || turn.signal } after left

variable {cfg : LoopConfig} {loop : SupervisorLoop} {turn : LoopTurn}

@[simp] theorem supervisor_beginRefresh :
    (loop.beginRefresh cfg turn).supervisor = loop.supervisor := by
  unfold SupervisorLoop.beginRefresh
  split
  · split
    · rfl
    · rfl
  · rfl

@[simp] theorem supervisor_readReplies :
    (loop.readReplies cfg turn).supervisor = loop.supervisor := by
  unfold SupervisorLoop.readReplies
  split
  · rfl
  · split
    · dsimp only
      split
      · rfl
      · rfl
      · rfl
    · rfl

@[simp] theorem supervisor_checkDeadline :
    (loop.checkDeadline turn).supervisor = loop.supervisor := by
  unfold SupervisorLoop.checkDeadline
  split
  · rfl
  · split
    · split
      · rfl
      · rfl
    · rfl

@[simp] theorem supervisor_weigh :
    (loop.weigh cfg turn).supervisor = loop.supervisor := by
  unfold SupervisorLoop.weigh
  split
  · dsimp only
    split
    · rfl
    · split
      · rfl
      · rfl
  · rfl

/-- What is scheduled after a turn was scheduled when the turn began, and not
due, or has been scheduled since. -/
theorem lookup_turn
    (after : ∀ exit ∈ turn.reaps, turn.restartNow ≤ exit.2)
    (going : loop.ended = false)
    {cpu : UInt32}
    {r : Restart}
    (left :
      (loop.turn cfg turn).supervisor.pendingRestarts.lookup cpu = some r) :
    turn.restartNow ≤ r.restartAt := by
  have reaped :
      ((loop.restartDue turn).reap turn).supervisor.pendingRestarts.lookup
        cpu = some r := by
    unfold SupervisorLoop.turn at left
    rw [going, if_neg (by simp)] at left
    dsimp only at left
    split at left
    next shutdown =>
      rw [Supervisor.stop, if_pos shutdown] at left
      exact left
    next =>
      simpa using left
  rcases lookup_reap after reaped with restarted | later
  · exact (lookup_restartDue restarted).2.le
  · exact later

/-- A later moment is no fewer milliseconds away. -/
theorem millisUntil_mono
    {now moment later : Instant}
    (ordered : moment ≤ later) :
    SupervisorLoop.millisUntil now moment ≤
      SupervisorLoop.millisUntil now later := by
  have spans : durationSince moment now ≤ durationSince later now :=
    Int.toNat_le_toNat (Int.sub_le_sub_right ordered now)
  have quotients :=
    Nat.div_le_div_right (c := fromMillis 1) spans
  unfold SupervisorLoop.millisUntil
  omega

/-- The wait in milliseconds is at most the true one, or one millisecond. -/
theorem fromMillis_millisUntil_le (now moment : Instant) :
    fromMillis (SupervisorLoop.millisUntil now moment) ≤
      max (fromMillis 1) (durationSince moment now) := by
  have rounded (span : Nat) :
      min (max (span / (1 * 1000000)) 1) 1000 * 1000000 ≤
        max (1 * 1000000) span := by
    omega
  exact rounded (durationSince moment now)

/-- The poll does not outlast a scheduled restart, but for a millisecond. -/
theorem fromMillis_pollTimeoutMs_le
    {cpu : UInt32}
    {r : Restart}
    (scheduled : loop.supervisor.pendingRestarts.lookup cpu = some r)
    (now : Instant) :
    fromMillis (loop.pollTimeoutMs now) ≤
      max (fromMillis 1) (durationSince r.restartAt now) := by
  have member :
      r.restartAt ∈
        loop.supervisor.pendingRestarts.entries.map (·.2.restartAt) :=
    List.mem_map.mpr ⟨⟨cpu, r⟩, AList.mem_lookup_iff.mp scheduled, rfl⟩
  have bounded :
      loop.pollTimeoutMs now ≤
        SupervisorLoop.millisUntil now r.restartAt := by
    unfold SupervisorLoop.pollTimeoutMs
    dsimp only
    split
    next earliest isMin =>
      have first : earliest ≤ r.restartAt :=
        (List.min?_eq_some_iff.mp isMin).2 _ member
      exact (Nat.min_le_right _ _).trans (millisUntil_mono first)
    next none =>
      rw [List.min?_eq_none_iff] at none
      rw [none] at member
      cases member
  exact (Nat.mul_le_mul_right _ bounded).trans
    (fromMillis_millisUntil_le now r.restartAt)

/-- A turn takes at most so long up to its poll, reaping included, and begins
so soon after the poll of the turn before was over. -/
structure Prompt
    (work slack : Duration)
    (loop : SupervisorLoop)
    (turn : LoopTurn) : Prop where
  awake : turn.restartNow ≤
    loop.clock + fromMillis (loop.pollTimeoutMs loop.clock) + slack
  reaps : ∀ exit ∈ turn.reaps, turn.restartNow ≤ exit.2
  works : turn.now ≤ turn.restartNow + work

/-- No restart is overdue by more than the given time, and those that are due
are carried out. -/
structure RestartsInTime
    (late : Duration)
    (loop : SupervisorLoop)
    (turn : LoopTurn) : Prop where
  late : ∀ cpu r, loop.supervisor.pendingRestarts.lookup cpu = some r →
    turn.restartNow ≤ r.restartAt + late
  respawns : ∀ cpu r, loop.supervisor.pendingRestarts.lookup cpu = some r →
    r.restartAt ≤ turn.restartNow →
      cpu ∉ (loop.restartDue turn).supervisor.pendingRestarts

/-- What is scheduled between turns is hardly overdue. -/
def HardlyOverdue (work : Duration) (loop : SupervisorLoop) : Prop :=
  ∀ cpu r, loop.supervisor.pendingRestarts.lookup cpu = some r →
    loop.clock ≤ r.restartAt + work

/-- A prompt turn leaves no restart overdue by more than its work. -/
theorem hardlyOverdue_turn
    {work slack : Duration}
    (loop : SupervisorLoop)
    (turn : LoopTurn)
    (prompt : Prompt work slack loop turn)
    (hardly : HardlyOverdue work loop) :
    HardlyOverdue work (loop.turn cfg turn) := by
  cases ended : loop.ended with
  | true =>
      have same : loop.turn cfg turn = loop := by
        rw [SupervisorLoop.turn, if_pos ended]
      rw [same]
      exact hardly
  | false =>
      intro cpu r left
      have after := lookup_turn prompt.reaps ended left
      have clock : (loop.turn cfg turn).clock = turn.now := by
        unfold SupervisorLoop.turn
        rw [if_neg (by simp [ended])]
        dsimp only
        split
        · rfl
        · rfl
      rw [clock]
      exact prompt.works.trans (Int.add_le_add_right after _)

/-- A turn carries out what is due within the poll's delay and the work. -/
theorem restartsInTime_of_hardlyOverdue
    {work slack : Duration}
    (loop : SupervisorLoop)
    (turn : LoopTurn)
    (prompt : Prompt work slack loop turn)
    (hardly : HardlyOverdue work loop) :
    RestartsInTime (fromMillis 1 + work + slack) loop turn where
  late := by
    intro cpu r scheduled
    have awake := prompt.awake
    have overdue := hardly cpu r scheduled
    have poll := fromMillis_pollTimeoutMs_le scheduled loop.clock
    unfold durationSince at poll
    unfold Instant Duration at *
    push_cast
    omega
  respawns := by
    intro cpu r scheduled due left
    obtain ⟨other, isOther⟩ := Option.isSome_iff_exists.mp
      (AList.lookup_isSome.mpr left)
    obtain ⟨before, later⟩ := lookup_restartDue isOther
    rw [scheduled] at before
    cases before
    exact absurd due (not_le.mpr later)

/-- Two workers that were preforked at once. -/
def preforkedPair : Supervisor :=
  Supervisor.initial.run [0, 1]
    [.prefork 0 (.parent 100), .prefork 0 (.parent 101)]

/-- A turn at a moment, with the given exits. -/
def turnAt (moment : Instant) (reaps : List (Pid × Instant)) : LoopTurn :=
  { scoredTurn with
    restartNow := moment
    forks := fun _ => .parent 102
    reaps := reaps
    now := moment }

/-- The first worker exits after half a second and is due two seconds later. -/
def crashTurns : List LoopTurn :=
  [turnAt (fromMillis 500) [(100, fromMillis 500)],
    turnAt (fromMillis 1500) [], turnAt (fromMillis 2500) []]

end Restarting

end DnsServices.Microdoh3
