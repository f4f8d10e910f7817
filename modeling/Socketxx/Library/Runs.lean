import Mathlib.Tactic.Common

/-!
Runs of a deterministic step function, judged state by state and step by step.

`EveryState` is a property of all the states a run goes through, `EveryStep` a
condition on each of its steps and the state the step is made in.
-/

set_option autoImplicit false

namespace Runs

variable {σ α : Type} (step : σ → α → σ)

def EveryState (holds : σ → Prop) : σ → List α → Prop
  | state, [] => holds state
  | state, op :: later => holds state ∧ EveryState holds (step state op) later

def EveryStep (good : σ → α → Prop) : σ → List α → Prop
  | _, [] => True
  | state, op :: later => good state op ∧ EveryStep good (step state op) later

variable {step} {inv holds bad : σ → Prop} {good claimed : σ → α → Prop}

theorem run_invariant (keeps : ∀ state op, inv state → inv (step state op)) {state : σ}
    (start : inv state) (ops : List α) : inv (ops.foldl step state) := by
  induction ops generalizing state with
  | nil => exact start
  | cons op later ih => exact ih (keeps state op start)

theorem EveryState.now {state : σ} {ops : List α} (every : EveryState step holds state ops) :
    holds state := by
  cases ops with
  | nil => exact every
  | cons op later => exact every.1

theorem EveryState.final {state : σ} {ops : List α} (every : EveryState step holds state ops) :
    holds (ops.foldl step state) := by
  induction ops generalizing state with
  | nil => exact every
  | cons op later ih => exact ih every.2

theorem everyState_of_invariant (sound : ∀ state, inv state → holds state)
    (keeps : ∀ state op, inv state → inv (step state op)) {state : σ} (start : inv state)
    (ops : List α) : EveryState step holds state ops := by
  induction ops generalizing state with
  | nil => exact sound state start
  | cons op later ih => exact ⟨sound state start, ih (keeps state op start)⟩

theorem EveryStep.everyState (sound : ∀ state, inv state → holds state)
    (keeps : ∀ state op, inv state → good state op → inv (step state op)) {state : σ}
    (start : inv state) {ops : List α} (every : EveryStep step good state ops) :
    EveryState step holds state ops := by
  induction ops generalizing state with
  | nil => exact sound state start
  | cons op later ih => exact ⟨sound state start, ih (keeps state op start every.1) every.2⟩

/-- When good steps keep an invariant that makes the property hold, and any other step
breaks it, the property is that of good steps. -/
theorem everyState_iff_everyStep (sound : ∀ state, inv state → holds state)
    (keeps : ∀ state op, inv state → good state op → inv (step state op))
    (breaks : ∀ state op, inv state → ¬ good state op → ¬ holds (step state op))
    {state : σ} (start : inv state) (ops : List α) :
    EveryState step holds state ops ↔ EveryStep step good state ops := by
  induction ops generalizing state with
  | nil => exact iff_of_true (sound state start) trivial
  | cons op later ih =>
      constructor
      · intro every
        obtain ⟨_here, every⟩ := every
        have goodStep : good state op := by
          by_contra other
          exact breaks state op start other every.now
        exact ⟨goodStep, (ih (keeps state op start goodStep)).mp every⟩
      · intro every
        obtain ⟨goodStep, every⟩ := every
        exact ⟨sound state start, (ih (keeps state op start goodStep)).mpr every⟩

theorem EveryStep.of_forall {ops : List α} (each : ∀ op ∈ ops, ∀ state, good state op)
    (state : σ) : EveryStep step good state ops := by
  induction ops generalizing state with
  | nil => trivial
  | cons op later ih =>
      rw [List.forall_mem_cons] at each
      exact ⟨each.1 state, ih each.2 (step state op)⟩

theorem everyStep_append (state : σ) (first later : List α) :
    EveryStep step good state (first ++ later) ↔
      EveryStep step good state first ∧ EveryStep step good (first.foldl step state) later := by
  induction first generalizing state with
  | nil => exact ⟨fun every => ⟨trivial, every⟩, And.right⟩
  | cons op first ih =>
      rw [List.cons_append, EveryStep, EveryStep, ih, List.foldl_cons, and_assoc]

theorem everyStep_iff_split (state : σ) (ops : List α) :
    EveryStep step good state ops ↔
      ∀ before op after, ops = before ++ op :: after → good (before.foldl step state) op := by
  constructor
  · intro every before op after split
    rw [split, everyStep_append] at every
    exact every.2.1
  · intro each
    induction ops generalizing state with
    | nil => trivial
    | cons op later ih =>
        constructor
        · exact each [] op later rfl
        · apply ih
          intro before other after split
          exact each (op :: before) other after (congrArg (List.cons op) split)

theorem EveryStep.invariant (keeps : ∀ state op, inv state → good state op → inv (step state op))
    {state : σ} (start : inv state) {ops : List α} (every : EveryStep step good state ops) :
    inv (ops.foldl step state) := by
  induction ops generalizing state with
  | nil => exact start
  | cons op later ih => exact ih (keeps state op start every.1) every.2

theorem everyStep_congr (keeps : ∀ state op, inv state → good state op → inv (step state op))
    (same : ∀ state op, inv state → (claimed state op ↔ good state op)) {state : σ}
    (start : inv state) (ops : List α) :
    EveryStep step claimed state ops ↔ EveryStep step good state ops := by
  induction ops generalizing state with
  | nil => exact Iff.rfl
  | cons op later ih =>
      rw [EveryStep, EveryStep, same state op start]
      exact and_congr_right (fun goodStep => ih (keeps state op start goodStep))

theorem everyStep_or (keeps : ∀ state op, inv state → good state op → inv (step state op))
    (spoils : ∀ state op, inv state → ¬ good state op → bad (step state op))
    (stays : ∀ state op, bad state → bad (step state op)) {state : σ} (start : inv state)
    (ops : List α) :
    EveryStep step good state ops ∧ inv (ops.foldl step state) ∨
      ¬ EveryStep step good state ops ∧ bad (ops.foldl step state) := by
  induction ops generalizing state with
  | nil => exact Or.inl ⟨trivial, start⟩
  | cons op later ih =>
      by_cases goodStep : good state op
      · rcases ih (keeps state op start goodStep) with ⟨every, ends⟩ | ⟨other, ends⟩
        · exact Or.inl ⟨⟨goodStep, every⟩, ends⟩
        · exact Or.inr ⟨fun every => other every.2, ends⟩
      · refine Or.inr ⟨fun every => goodStep every.1, ?_⟩
        exact run_invariant stays (spoils state op start goodStep) later

end Runs
