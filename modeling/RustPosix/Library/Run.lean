import Mathlib

/-! Runs of a partial step function whose steps all meet a side condition, and
the rule that turns a step lemma into a statement about whole runs. -/

namespace RustPosix.Library

universe u v

/-- States reached from `start` by steps that each meet `allowed` in the state
they are taken from. -/
inductive Run {State : Type u} {Label : Type v} (step : State → Label → Option State)
    (allowed : State → Label → Prop) (start : State) : State → Prop where
  | start : Run step allowed start start
  | step {before after : State} (run : Run step allowed start before) (label : Label)
      (meets : allowed before label) (next : step before label = some after) :
      Run step allowed start after

variable {State : Type u} {Label : Type v} {step : State → Label → Option State}
  {allowed : State → Label → Prop} {start last : State}

/-- What holds initially and survives every allowed step holds of every run. -/
theorem Run.invariant {holds : State → Prop} (run : Run step allowed start last)
    (initial : holds start)
    (preserved : ∀ before label after, holds before → allowed before label →
      step before label = some after → holds after) : holds last := by
  induction run with
  | start => exact initial
  | step _ label meets next ih => exact preserved _ label _ ih meets next

/-- The state after a list of labels, if all of its steps pass a check and can be taken. -/
def follow (step : State → Label → Option State) (check : State → Label → Bool) :
    State → List Label → Option State
  | state, [] => some state
  | state, label :: rest =>
    if check state label then (step state label).bind (follow step check · rest) else none

theorem follow_cons {check : State → Label → Bool} {state : State} {label : Label}
    {rest : List Label} (path : follow step check state (label :: rest) = some last) :
    ∃ after, check state label = true ∧ step state label = some after ∧
      follow step check after rest = some last := by
  unfold follow at path
  split at path
  · rename_i passes
    obtain ⟨after, next, path⟩ := Option.bind_eq_some_iff.mp path
    exact ⟨after, passes, next, path⟩
  · cases path

/-- A list of labels continues a run if the check is at least the side condition. -/
theorem Run.follow {check : State → Label → Bool} {labels : List Label} {middle : State}
    (run : Run step allowed start middle)
    (sound : ∀ state label, check state label = true → allowed state label)
    (path : follow step check middle labels = some last) : Run step allowed start last := by
  induction labels generalizing middle with
  | nil =>
    cases path
    exact run
  | cons label rest ih =>
    obtain ⟨after, passes, next, path⟩ := follow_cons path
    exact ih (run.step label (sound middle label passes) next) path

/-- What a list of labels can be seen to lead to is seen in a state of some run. -/
theorem Run.seen {check : State → Label → Bool} {labels : List Label} {look : State → Bool}
    (sound : ∀ state label, check state label = true → allowed state label)
    (seen : (Library.follow step check start labels).any look = true) :
    ∃ last, Library.follow step check start labels = some last ∧
      Run step allowed start last ∧ look last = true := by
  cases path : Library.follow step check start labels with
  | none =>
    rw [path] at seen
    cases seen
  | some last =>
    rw [path] at seen
    exact ⟨last, rfl, Run.start.follow sound path, seen⟩

end RustPosix.Library
