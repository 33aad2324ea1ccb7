import Mathlib.Data.List.Basic

namespace DnsServices.Runs

/-!
# Runs of a step function

A run folds a step function over a list of actions.  A condition on each step
is a condition on the state it starts from and on its action.
-/

variable {σ α : Type} {step : σ → α → σ} {meets : σ → α → Prop}

/-- Every step of a run meets a condition. -/
def AllSteps
    (step : σ → α → σ)
    (meets : σ → α → Prop) : σ → List α → Prop
  | _, [] => True
  | s, action :: rest =>
      meets s action ∧ AllSteps step meets (step s action) rest

instance decidableAllSteps
    [∀ s action, Decidable (meets s action)] :
    ∀ s actions, Decidable (AllSteps step meets s actions)
  | _, [] => isTrue trivial
  | s, action :: rest =>
      have := decidableAllSteps (step s action) rest
      inferInstanceAs (Decidable (_ ∧ _))

/-- What every step that meets the condition keeps, a whole run keeps. -/
theorem AllSteps.invariant
    {invariant : σ → Prop}
    (keeps : ∀ s action, meets s action → invariant s →
      invariant (step s action))
    {s : σ}
    {actions : List α}
    (all : AllSteps step meets s actions)
    (holds : invariant s) :
    invariant (actions.foldl step s) := by
  induction actions generalizing s with
  | nil =>
      exact holds
  | cons action rest inductionHypothesis =>
      exact inductionHypothesis all.2 (keeps s action all.1 holds)

/-- What one action of a run brings about and every step keeps holds in the
end. -/
theorem AllSteps.reaches
    (goal : σ → Prop)
    {trigger : α → Prop}
    (keeps : ∀ s action, meets s action → goal s → goal (step s action))
    (brings : ∀ s action, meets s action → trigger action →
      goal (step s action))
    {s : σ}
    {actions : List α}
    (all : AllSteps step meets s actions)
    (occurs : ∃ action ∈ actions, trigger action) :
    goal (actions.foldl step s) := by
  induction actions generalizing s with
  | nil =>
      obtain ⟨_, member, -⟩ := occurs
      cases member
  | cons action rest inductionHypothesis =>
      obtain ⟨trigged, member, triggers⟩ := occurs
      rcases List.mem_cons.mp member with rfl | later
      · exact all.2.invariant keeps (brings s trigged all.1 triggers)
      · exact inductionHypothesis all.2 ⟨trigged, later, triggers⟩

/-- What a step that meets the condition does under an invariant, every step
of a run does. -/
theorem AllSteps.under
    {invariant : σ → Prop}
    {other : σ → α → Prop}
    (keeps : ∀ s action, meets s action → invariant s →
      invariant (step s action))
    (gives : ∀ s action, meets s action → invariant s → other s action)
    {s : σ}
    {actions : List α}
    (all : AllSteps step meets s actions)
    (holds : invariant s) :
    AllSteps step other s actions := by
  induction actions generalizing s with
  | nil =>
      trivial
  | cons action rest inductionHypothesis =>
      exact ⟨gives s action all.1 holds,
        inductionHypothesis all.2 (keeps s action all.1 holds)⟩

/-- A condition on the actions alone. -/
theorem allSteps_of_forall_mem
    {property : α → Prop}
    {actions : List α}
    (every : ∀ action ∈ actions, property action)
    (s : σ) :
    AllSteps step (fun _ action => property action) s actions := by
  induction actions generalizing s with
  | nil =>
      trivial
  | cons action rest inductionHypothesis =>
      rw [List.forall_mem_cons] at every
      exact ⟨every.1, inductionHypothesis every.2 (step s action)⟩

/-- Two conditions at once. -/
theorem AllSteps.and
    {other : σ → α → Prop}
    {s : σ}
    {actions : List α}
    (first : AllSteps step meets s actions)
    (second : AllSteps step other s actions) :
    AllSteps step (fun s action => meets s action ∧ other s action) s
      actions := by
  induction actions generalizing s with
  | nil =>
      trivial
  | cons action rest inductionHypothesis =>
      exact ⟨⟨first.1, second.1⟩, inductionHypothesis first.2 second.2⟩

/-- What the condition says of an action holds of every action of a run. -/
theorem AllSteps.forall_mem
    {property : α → Prop}
    (implies : ∀ s action, meets s action → property action)
    {s : σ}
    {actions : List α}
    (all : AllSteps step meets s actions) :
    ∀ action ∈ actions, property action := by
  induction actions generalizing s with
  | nil =>
      simp
  | cons first rest inductionHypothesis =>
      rw [List.forall_mem_cons]
      exact ⟨implies s first all.1, inductionHypothesis all.2⟩

/-- One more step. -/
theorem AllSteps.concat
    {s : σ}
    {actions : List α}
    {last : α}
    (all : AllSteps step meets s actions)
    (met : meets (actions.foldl step s) last) :
    AllSteps step meets s (actions ++ [last]) := by
  induction actions generalizing s with
  | nil =>
      exact ⟨met, trivial⟩
  | cons action rest inductionHypothesis =>
      exact ⟨all.1, inductionHypothesis all.2 met⟩

/-- Conditions that agree on every step agree on every run. -/
theorem allSteps_congr
    {other : σ → α → Prop}
    (agree : ∀ s action, meets s action ↔ other s action)
    (s : σ)
    (actions : List α) :
    AllSteps step meets s actions ↔ AllSteps step other s actions := by
  induction actions generalizing s with
  | nil =>
      exact Iff.rfl
  | cons action rest inductionHypothesis =>
      rw [AllSteps, AllSteps, agree, inductionHypothesis]

/-- Conditions that agree on the steps of a run that keep an invariant agree
on the run. -/
theorem AllSteps.congr_under
    {invariant : σ → Prop}
    {first second : σ → α → Prop}
    (keeps : ∀ s action, meets s action → invariant s →
      invariant (step s action))
    (agree : ∀ s action, meets s action → invariant s →
      (first s action ↔ second s action))
    {s : σ}
    {actions : List α}
    (all : AllSteps step meets s actions)
    (holds : invariant s) :
    AllSteps step first s actions ↔ AllSteps step second s actions := by
  induction actions generalizing s with
  | nil =>
      exact Iff.rfl
  | cons action rest inductionHypothesis =>
      exact and_congr (agree s action all.1 holds)
        (inductionHypothesis all.2 (keeps s action all.1 holds))

/-- Every state a run goes through has a property, the first one included. -/
def AllStates
    (step : σ → α → σ)
    (holds : σ → Prop) : σ → List α → Prop
  | s, [] => holds s
  | s, action :: rest =>
      holds s ∧ AllStates step holds (step s action) rest

/-- What follows from an invariant holds in every state of a run. -/
theorem allStates_of_invariant
    {invariant holds : σ → Prop}
    (keeps : ∀ s action, invariant s → invariant (step s action))
    (implies : ∀ s, invariant s → holds s)
    {s : σ}
    (inv : invariant s)
    (actions : List α) :
    AllStates step holds s actions := by
  induction actions generalizing s with
  | nil =>
      exact implies s inv
  | cons action rest inductionHypothesis =>
      exact ⟨implies s inv, inductionHypothesis (keeps s action inv)⟩

/-- If each step reaches the property exactly by meeting the condition, then
so does a run. -/
theorem allStates_iff_allSteps
    {invariant holds : σ → Prop}
    (keeps : ∀ s action, invariant s → invariant (step s action))
    (exact : ∀ s action, invariant s → holds s →
      (holds (step s action) ↔ meets s action))
    {s : σ}
    (inv : invariant s)
    (start : holds s)
    (actions : List α) :
    AllStates step holds s actions ↔ AllSteps step meets s actions := by
  induction actions generalizing s with
  | nil =>
      exact iff_of_true start trivial
  | cons action rest inductionHypothesis =>
      have first := exact s action inv start
      constructor
      · rintro ⟨_, all⟩
        have reached : holds (step s action) := by
          cases rest with
          | nil =>
              exact all
          | cons next rest =>
              exact all.1
        exact ⟨first.mp reached,
          (inductionHypothesis (keeps s action inv) reached).mp all⟩
      · rintro ⟨met, all⟩
        have reached := first.mpr met
        exact ⟨start,
          (inductionHypothesis (keeps s action inv) reached).mpr all⟩

end DnsServices.Runs
