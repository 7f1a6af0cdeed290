import Mathlib

/-! Computations over a mutable state that may stop with an error. A failure
keeps the changes made before it. -/

namespace RustPosix.Library

universe u v

/-- One call: what it returns and the state it leaves. -/
def Action (State Error Value : Type u) := State → Except Error Value × State

namespace Action

variable {State Part Error Value Result : Type u}

protected def bind (act : Action State Error Value) (next : Value → Action State Error Result) :
    Action State Error Result := fun state =>
  match act state with
  | (.ok value, after) => next value after
  | (.error error, after) => (.error error, after)

instance : Monad (Action State Error) where
  pure value := fun state => (.ok value, state)
  bind := Action.bind

def fail (error : Error) : Action State Error Value := fun state => (.error error, state)

def modify (change : State → State) : Action State Error PUnit :=
  fun state => (.ok ⟨⟩, change state)

@[simp] theorem pure_apply (value : Value) (state : State) :
    (pure value : Action State Error Value) state = (.ok value, state) := rfl

theorem bind_apply (act : Action State Error Value) (next : Value → Action State Error Result)
    (state : State) : (act >>= next) state =
      match act state with
      | (.ok value, after) => next value after
      | (.error error, after) => (.error error, after) := rfl

@[simp] theorem fail_apply (error : Error) (state : State) :
    (fail error : Action State Error Value) state = (.error error, state) := rfl

@[simp] theorem modify_apply (change : State → State) (state : State) :
    (modify change : Action State Error PUnit) state = (.ok ⟨⟩, change state) := rfl

/-- A call with a known result leaves some state. -/
theorem exists_state {act : Action State Error Value} {state : State}
    {result : Except Error Value} (known : (act state).1 = result) :
    ∃ after, act state = (result, after) :=
  ⟨(act state).2, Prod.ext known rfl⟩

end Action

/-- What a call guarantees when it returns and when it fails. -/
def Yields {State Error Value : Type u} (result : Except Error Value × State)
    (returns : Value → State → Prop) (fails : Error → State → Prop) : Prop :=
  match result with
  | (.ok value, after) => returns value after
  | (.error error, after) => fails error after

namespace Yields

variable {State Part Error Value Result : Type u} {returns : Value → State → Prop}
  {fails : Error → State → Prop}

theorem mono {result : Except Error Value × State} {returns' : Value → State → Prop}
    {fails' : Error → State → Prop} (given : Yields result returns fails)
    (ok : ∀ value after, returns value after → returns' value after)
    (error : ∀ error after, fails error after → fails' error after) :
    Yields result returns' fails' := by
  match result, given with
  | (.ok value, after), given => exact ok value after given
  | (.error failure, after), given => exact error failure after given

theorem bind {act : Action State Error Value} {next : Value → Action State Error Result}
    {state : State} {returns' : Result → State → Prop} {fails' : Error → State → Prop}
    (first : Yields (act state) returns fails)
    (second : ∀ value after, returns value after → Yields (next value after) returns' fails')
    (error : ∀ error after, fails error after → fails' error after) :
    Yields ((act >>= next) state) returns' fails' := by
  rw [Action.bind_apply]
  match act state, first with
  | (.ok value, after), given => exact second value after given
  | (.error failure, after), given => exact error failure after given

theorem both {result : Except Error Value × State} {returns' : Value → State → Prop}
    {fails' : Error → State → Prop} (first : Yields result returns fails)
    (second : Yields result returns' fails') :
    Yields result (fun value after => returns value after ∧ returns' value after)
      fun error after => fails error after ∧ fails' error after := by
  match result, first, second with
  | (.ok _, _), first, second => exact ⟨first, second⟩
  | (.error _, _), first, second => exact ⟨first, second⟩

theorem all {Index : Type v} {result : Except Error Value × State}
    {each : Index → Value → State → Prop} {broken : Index → Error → State → Prop}
    (given : ∀ index, Yields result (each index) (broken index)) :
    Yields result (fun value after => ∀ index, each index value after)
      fun error after => ∀ index, broken index error after := by
  match result, given with
  | (.ok _, _), given => exact given
  | (.error _, _), given => exact given

theorem of_ok {result : Except Error Value × State} {value : Value} {after : State}
    (given : Yields result returns fails) (ok : result = (.ok value, after)) :
    returns value after := by
  subst ok; exact given

theorem of_error {result : Except Error Value × State} {error : Error} {after : State}
    (given : Yields result returns fails) (failed : result = (.error error, after)) :
    fails error after := by
  subst failed; exact given

/-- When return and failure give the same, the state left behind has it. -/
theorem either {result : Except Error Value × State} {holds : State → Prop}
    (given : Yields result (fun _ => holds) fun _ => holds) : holds result.2 := by
  match result, given with
  | (.ok _, _), given => exact given
  | (.error _, _), given => exact given

end Yields

/-- Whatever the outcome, the state left is related to the state before; a value
returned has the property `post`. -/
def Ensures {State Error Value : Type u} (relation : State → State → Prop)
    (act : Action State Error Value) (post : Value → Prop) : Prop :=
  ∀ state, Yields (act state) (fun value after => relation state after ∧ post value)
    fun _ after => relation state after

namespace Ensures

variable {State Error Value Result : Type u} {relation : State → State → Prop}
  {act : Action State Error Value} {post : Value → Prop}

theorem state (given : Ensures relation act post) (state : State) : relation state (act state).2 :=
  ((given state).mono (fun _ _ both => both.1) fun _ _ held => held).either

theorem mono {weaker : Value → Prop} (given : Ensures relation act post)
    (implied : ∀ value, post value → weaker value) : Ensures relation act weaker := fun state =>
  (given state).mono (fun value _ both => ⟨both.1, implied value both.2⟩) fun _ _ held => held

theorem ite {condition : Prop} [Decidable condition] {other : Action State Error Value}
    (yes : condition → Ensures relation act post) (no : ¬ condition → Ensures relation other post) :
    Ensures relation (if condition then act else other) post := by
  by_cases holds : condition
  · rw [if_pos holds]; exact yes holds
  · rw [if_neg holds]; exact no holds

theorem anything (act : Action State Error Value) :
    Ensures (fun _ _ => True) act fun _ => True := by
  intro state
  match act state with
  | (.ok _, _) => exact ⟨trivial, trivial⟩
  | (.error _, _) => trivial

/-- A relation that only speaks about states with an invariant. -/
theorem of_invariant {holds : State → Prop}
    (given : ∀ state, holds state → Yields (act state) (fun _ after => relation state after)
      fun _ after => relation state after) :
    Ensures (fun before after => holds before → relation before after) act fun _ => True := by
  intro state
  have each := given state
  match act state, each with
  | (.ok _, _), each => exact ⟨each, trivial⟩
  | (.error _, _), each => exact each

variable (reflexive : ∀ state, relation state state)
  (transitive : ∀ first second third, relation first second → relation second third →
    relation first third)

include reflexive in
theorem pure {value : Value} (holds : post value) :
    Ensures relation (pure value : Action State Error Value) post :=
  fun state => ⟨reflexive state, holds⟩

include reflexive in
theorem fail (error : Error) : Ensures relation (Action.fail error : Action State Error Value) post :=
  reflexive

include transitive in
theorem bind {next : Value → Action State Error Result} {final : Result → Prop}
    (first : Ensures relation act post)
    (second : ∀ value, post value → Ensures relation (next value) final) :
    Ensures relation (act >>= next) final := fun state =>
  Yields.bind (first state)
    (fun value after both => (second value both.2 after).mono
      (fun _ last done => ⟨transitive state after last both.1 done.1, done.2⟩)
      fun _ last held => transitive state after last both.1 held)
    fun _ _ held => held

end Ensures

end RustPosix.Library
