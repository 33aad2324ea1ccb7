import Mathlib.Algebra.Order.Group.Multiset
import Mathlib.Data.Multiset.Range
import Mathlib.Tactic.Abel
import DnsServices.KeyedItems
import DnsServices.WorkerMoves

namespace DnsServices.Microdoh3

/-!
# Every accepted query is accounted for

`custody` collects the serial numbers of all queries that were answered, are
held in the queue or in `pending`, or were overwritten in `pending`.  Together
with the queries in hand it always is the set of accepted serial numbers, so a
query can only be lost by being overwritten, or by being left in the queue
when `run` returns.
-/

open Http3 Shared

/-! ## Where queries are -/

/-- The query that an observation answers. -/
def Observation.replied? : Observation → Option Nat
  | .servfail serial _ _ => some serial
  | .response serial _ _ => some serial
  | _ => none

/-- The query that was replaced in `pending`. -/
def Observation.overwritten? : Observation → Option Nat
  | .overwritten serial => some serial
  | _ => none

namespace Worker

/-- The serial numbers of the replies sent so far. -/
def replied (w : Worker) : Multiset Nat :=
  ↑(w.history.filterMap Observation.replied?)

/-- The serial numbers of the entries replaced in `pending`. -/
def overwritten (w : Worker) : Multiset Nat :=
  ↑(w.history.filterMap Observation.overwritten?)

/-- The queries that wait for a connection. -/
def queued (w : Worker) : Multiset Nat :=
  ↑(w.queue.map fun q => q.serial)

/-- The queries whose requests are under way. -/
def inFlight (w : Worker) : Multiset Nat :=
  ↑(w.pending.entries.map fun entry => entry.2.serial)

/-- All queries that have been accepted and are accounted for. -/
def custody (w : Worker) : Multiset Nat :=
  w.replied + w.overwritten + w.queued + w.inFlight

section Primitives

variable (w : Worker)

theorem replied_observe (observation : Observation) :
    (w.observe observation).replied =
      w.replied + ↑observation.replied?.toList := by
  rw [replied, observe, List.filterMap_append, ← Multiset.coe_add, replied]
  cases kind : observation.replied? <;> simp [kind]

theorem overwritten_observe (observation : Observation) :
    (w.observe observation).overwritten =
      w.overwritten + ↑observation.overwritten?.toList := by
  rw [overwritten, observe, List.filterMap_append, ← Multiset.coe_add,
    overwritten]
  cases kind : observation.overwritten? <;> simp [kind]

/-- An observation takes over the query it replies to or overwrites. -/
theorem custody_observe (observation : Observation) :
    (w.observe observation).custody =
      w.custody + ↑observation.replied?.toList +
        ↑observation.overwritten?.toList := by
  rw [custody, replied_observe, overwritten_observe, custody]
  have sameQueue : (w.observe observation).queued = w.queued := rfl
  have sameFlight : (w.observe observation).inFlight = w.inFlight := rfl
  rw [sameQueue, sameFlight]
  abel

theorem custody_observe_other
    {observation : Observation}
    (notReply : observation.replied? = none)
    (notOverwritten : observation.overwritten? = none) :
    (w.observe observation).custody = w.custody := by
  rw [custody_observe, notReply, notOverwritten]
  simp

theorem custody_observe_reply
    {observation : Observation}
    {serial : Nat}
    (reply : observation.replied? = some serial)
    (notOverwritten : observation.overwritten? = none) :
    (w.observe observation).custody = serial ::ₘ w.custody := by
  rw [custody_observe, reply, notOverwritten]
  simp [add_comm, Multiset.singleton_add]

theorem custody_observe_overwritten (serial : Nat) :
    (w.observe (.overwritten serial)).custody = serial ::ₘ w.custody := by
  rw [custody_observe]
  simp [Observation.replied?, Observation.overwritten?, add_comm,
    Multiset.singleton_add]

theorem inFlight_eq_items :
    w.inFlight = KeyedItems.items (fun p : Pending => p.serial) w.pending :=
  rfl

theorem inFlight_of_lookup
    {stream : StreamId}
    {p : Pending}
    (found : w.pending.lookup stream = some p) :
    w.inFlight =
      p.serial ::ₘ { w with pending := w.pending.erase stream }.inFlight := by
  rw [inFlight_eq_items, KeyedItems.items_of_lookup found, inFlight_eq_items]

/-- Removing an entry of `pending` takes its query in hand. -/
theorem custody_of_lookup
    {stream : StreamId}
    {p : Pending}
    (found : w.pending.lookup stream = some p) :
    w.custody =
      p.serial ::ₘ
        { w with pending := w.pending.erase stream }.custody := by
  rw [custody, w.inFlight_of_lookup found]
  exact Multiset.add_cons _ _ _

/-- Registering a request puts its query into `pending`. -/
theorem custody_register
    (conn : Connection)
    (stream : StreamId)
    (request : Bytes)
    (entry : Pending) :
    (w.register conn stream request entry).custody =
      entry.serial ::ₘ w.custody := by
  have inserted (w : Worker) :
      { w with
          h3 := w.h3.registerRequest stream
          pending := w.pending.insert stream entry }.custody =
        entry.serial ::ₘ
          { w with pending := w.pending.erase stream }.custody := by
    have flying :
        { w with
            h3 := w.h3.registerRequest stream
            pending := w.pending.insert stream entry }.inFlight =
          entry.serial ::ₘ
            { w with pending := w.pending.erase stream }.inFlight := rfl
    rw [custody, flying, Multiset.add_cons]
    rfl
  rw [register, custody_observe_other _ rfl rfl]
  cases found : w.pending.lookup stream with
  | none =>
      have absent : stream ∉ w.pending := AList.lookup_eq_none.mp found
      rw [inserted, KeyedItems.erase_of_notMem absent]
  | some replaced =>
      rw [inserted, w.custody_of_lookup found]
      exact congrArg (entry.serial ::ₘ ·)
        (custody_observe_overwritten
          { w with pending := w.pending.erase stream } replaced.serial)

end Primitives

/-- Popping the queue takes its front query in hand. -/
theorem custody_of_queue_cons
    {w : Worker}
    {q : QueuedQuery}
    {rest : List QueuedQuery}
    (queue : w.queue = q :: rest) :
    w.custody = q.serial ::ₘ { w with queue := rest }.custody := by
  have front : w.queued = q.serial ::ₘ { w with queue := rest }.queued := by
    rw [queued, queue]
    rfl
  rw [custody, front, Multiset.add_cons, Multiset.cons_add]
  rfl

/-- Pushing onto the queue puts a query down. -/
theorem custody_queue_append (w : Worker) (q : QueuedQuery) :
    { w with queue := w.queue ++ [q] }.custody = q.serial ::ₘ w.custody := by
  have back :
      { w with queue := w.queue ++ [q] }.queued = q.serial ::ₘ w.queued := by
    simp only [queued, List.map_append, List.map_cons, List.map_nil,
      ← Multiset.coe_add, Multiset.coe_singleton]
    rw [add_comm, Multiset.singleton_add]
  rw [custody, back, Multiset.add_cons, Multiset.cons_add]
  rfl

/-- Emptying `pending` takes all its queries in hand. -/
theorem custody_takeAll (w : Worker) :
    w.custody = { w with pending := ∅ }.custody + w.inFlight := by
  have emptied :
      { w with pending := ∅ }.custody =
        w.replied + w.overwritten + w.queued + 0 := rfl
  rw [emptied, add_zero, custody]

theorem Tuned.custody
    {w after : Worker}
    (tuned : w.Tuned after) :
    after.custody = w.custody := by
  simp only [Worker.custody, replied, overwritten, queued, inFlight,
    tuned.queue, tuned.pending, tuned.history]

end Worker

/-! ## Moves keep the books balanced -/

namespace MidStep

/-- The serial numbers of the queries in hand. -/
def handSerials (m : MidStep) : Multiset Nat :=
  ↑(m.inHand.map AcceptedQuery.serial)

/-- Every accepted query is accounted for exactly once. -/
def Balanced (m : MidStep) : Prop :=
  m.worker.custody + m.handSerials = Multiset.range m.worker.accepted

end MidStep

/-- A query changes hands: what custody gains the hand loses. -/
theorem balanced_cons
    {w : Worker}
    {query : AcceptedQuery}
    {hand : List AcceptedQuery}
    {events : List H3Event} :
    MidStep.Balanced ⟨w, query :: hand, events⟩ ↔
      query.serial ::ₘ w.custody + ↑(hand.map AcceptedQuery.serial) =
        Multiset.range w.accepted := by
  have inHand :
      MidStep.handSerials ⟨w, query :: hand, events⟩ =
        query.serial ::ₘ ↑(hand.map AcceptedQuery.serial) := rfl
  rw [MidStep.Balanced, inHand, Multiset.add_cons, Multiset.cons_add]

theorem Observation.isReport_iff
    {observation : Observation}
    (isReport : observation.isReport) :
    observation.replied? = none ∧ observation.overwritten? = none := by
  cases observation <;> first | exact ⟨rfl, rfl⟩ | cases isReport

/-- Every move keeps each accepted query in custody once. -/
theorem Move.balanced
    {cfg : WorkerConfig}
    {action : Action}
    {before after : MidStep}
    (move : Move cfg action before after)
    (balanced : before.Balanced) :
    after.Balanced := by
  cases move with
  | tune tuned =>
      rw [MidStep.Balanced, tuned.custody, tuned.accepted]
      exact balanced
  | @report w _ _ observation isReport =>
      obtain ⟨notReply, notOverwritten⟩ :=
        Observation.isReport_iff isReport
      rw [MidStep.Balanced, w.custody_observe_other notReply notOverwritten]
      exact balanced
  | @accept w hand _ query peer valid =>
      rw [balanced_cons, Worker.custody_observe_other _ rfl rfl,
        Multiset.cons_add]
      exact (congrArg (w.accepted ::ₘ ·) balanced).trans
        (Multiset.range_succ w.accepted).symm
  | @enqueue w query hand _ deadline =>
      rw [MidStep.Balanced, w.custody_queue_append]
      exact balanced_cons.mp balanced
  | dequeue front =>
      rw [balanced_cons, ← Worker.custody_of_queue_cons front]
      exact balanced
  | @take w _ _ stream p found =>
      rw [balanced_cons, ← w.custody_of_lookup found]
      exact balanced
  | @takeAll w hand events =>
      have inHand :
          MidStep.handSerials
              ⟨{ w with pending := ∅ },
                w.pending.entries.map
                  (fun entry => entry.2.toAcceptedQuery) ++ hand, events⟩ =
            w.inFlight + ↑(hand.map AcceptedQuery.serial) := by
        simp [MidStep.handSerials, Worker.inFlight, Function.comp_def]
      rw [MidStep.Balanced, inHand, ← add_assoc, ← w.custody_takeAll]
      exact balanced
  | @servfail w query hand _ out built =>
      rw [MidStep.Balanced, w.custody_observe_reply rfl rfl]
      exact balanced_cons.mp balanced
  | openStream stream connected =>
      exact balanced
  | request connected fresh allowed deadline started =>
      have held := balanced_cons.mp balanced
      rw [MidStep.Balanced, Worker.custody_register, Worker.register_eq]
      exact held
  | receive connected stream chunk =>
      rw [MidStep.Balanced, Worker.custody_observe_other _ rfl rfl]
      exact balanced
  | finish stream =>
      exact balanced
  | reset stream =>
      exact balanced
  | @respond w _ _ stream body p found =>
      rw [MidStep.Balanced, Worker.custody_observe_reply _ rfl rfl,
        ← w.custody_of_lookup found]
      exact balanced
  | skip event =>
      exact balanced
  | disconnect settled =>
      exact balanced
  | connect disconnected noRequests =>
      exact balanced
  | halt isShutdown =>
      exact balanced

namespace Worker

/-- In every run each accepted query is accounted for exactly once. -/
theorem custody_run
    (cfg : WorkerConfig)
    (w : Worker)
    (initially : w.custody = Multiset.range w.accepted)
    (actions : List Action) :
    (w.run cfg actions).custody =
      Multiset.range (w.run cfg actions).accepted := by
  have balanced : MidStep.Balanced ⟨w, [], []⟩ :=
    (add_zero w.custody).trans initially
  exact (add_zero _).symm.trans (run_invariant Move.balanced balanced actions)

/-- No query is answered twice. -/
theorem nodup_replied
    (w : Worker)
    (balanced : w.custody = Multiset.range w.accepted) :
    (w.history.filterMap Observation.replied?).Nodup := by
  have replied : w.replied ≤ Multiset.range w.accepted := by
    rw [← balanced, custody, add_assoc, add_assoc]
    exact Multiset.le_add_right _ _
  exact Multiset.coe_nodup.mp
    (Multiset.nodup_of_le replied (Multiset.nodup_range _))

end Worker

/-! ## Accepted queries are numbered -/

/-- The query that was taken in. -/
def Observation.accepted? : Observation → Option Nat
  | .accepted serial _ _ => some serial
  | _ => none

/-- A move accepts one query, or leaves the accepted queries as they are. -/
theorem Move.accepted_cases
    {cfg : WorkerConfig}
    {action : Action}
    {before after : MidStep}
    (move : Move cfg action before after) :
    (∃ query peer,
      Dns.validateQuery query = .ok () ∧
        after.worker.accepted = before.worker.accepted + 1 ∧
        after.worker.history =
          before.worker.history ++
            [.accepted before.worker.accepted query peer]) ∨
      after.worker.accepted = before.worker.accepted ∧
        ∃ added, after.worker.history = before.worker.history ++ added ∧
          ∀ observation ∈ added, observation.accepted? = none := by
  have silent
      (accepted : after.worker.accepted = before.worker.accepted)
      (history : after.worker.history = before.worker.history) :
      after.worker.accepted = before.worker.accepted ∧
        ∃ added, after.worker.history = before.worker.history ++ added ∧
          ∀ observation ∈ added, observation.accepted? = none :=
    ⟨accepted, [], by rw [history, List.append_nil], by simp⟩
  cases move with
  | tune tuned =>
      exact .inr (silent tuned.accepted tuned.history)
  | @report w _ _ observation isReport =>
      refine .inr ⟨rfl, [observation], rfl, ?_⟩
      rw [List.forall_mem_singleton]
      cases observation <;> first | rfl | cases isReport
  | @accept w _ _ query peer valid =>
      exact .inl ⟨query, peer, valid, rfl, rfl⟩
  | servfail built =>
      exact .inr ⟨rfl, [_], rfl, by simp [Observation.accepted?]⟩
  | @request w _ _ _ _ stream connected fresh allowed deadline started =>
      rw [Worker.register_eq]
      refine .inr ⟨rfl, _, List.append_assoc _ _ _, ?_⟩
      intro observation member
      rcases List.mem_append.mp member with old | new
      · obtain ⟨serial, rfl⟩ := Worker.eq_overwritten_of_mem_replaced old
        rfl
      · rw [List.mem_singleton.mp new]
        rfl
  | receive connected stream chunk =>
      exact .inr ⟨rfl, [_], rfl, by simp [Observation.accepted?]⟩
  | respond found =>
      exact .inr ⟨rfl, [_], rfl, by simp [Observation.accepted?]⟩
  | _ =>
      exact .inr (silent rfl rfl)

/-- The accepted queries are numbered in the order of their arrival. -/
def MidStep.Numbered (m : MidStep) : Prop :=
  m.worker.history.filterMap Observation.accepted? =
    List.range m.worker.accepted

/-- Every move keeps the accepted queries numbered in order. -/
theorem Move.numbered
    {cfg : WorkerConfig}
    {action : Action}
    {before after : MidStep}
    (move : Move cfg action before after)
    (numbered : before.Numbered) :
    after.Numbered := by
  rw [MidStep.Numbered] at numbered ⊢
  rcases move.accepted_cases with
    ⟨query, peer, _, accepted, history⟩ | ⟨accepted, added, history, others⟩
  · rw [history, accepted, List.filterMap_append, numbered, List.range_succ]
    rfl
  · rw [history, accepted, List.filterMap_append, numbered,
      List.filterMap_eq_nil_iff.mpr others, List.append_nil]

namespace Worker

/-- The accepted queries of a run are numbered from 0 on. -/
theorem numbered_run
    (cfg : WorkerConfig)
    (w : Worker)
    (initially :
      w.history.filterMap Observation.accepted? = List.range w.accepted)
    (actions : List Action) :
    (w.run cfg actions).history.filterMap Observation.accepted? =
      List.range (w.run cfg actions).accepted := by
  have numbered : MidStep.Numbered ⟨w, [], []⟩ := initially
  exact run_invariant Move.numbered numbered actions

end Worker

end DnsServices.Microdoh3
