import Mathlib.Logic.Basic

/-!
# Programs with state and exceptions

A program runs on a state and returns a value, throws, or does something that the
language leaves undefined.  An exception does not roll the state back: the state
in which it is thrown is part of the outcome.

`Meets` states what a program does from a state: it is defined there, and its
two ways of ending have a postcondition each.
-/

namespace Nstl.Programs

/-- How a program ends. -/
inductive Outcome (State Error Value : Type) where
  | value (result : Value) (state : State)
  | thrown (error : Error) (state : State)
  | undefined

def Program (State Error Value : Type) : Type :=
  State → Outcome State Error Value

variable {State Whole Error Value Next : Type}

namespace Program

/-- A value that is returned without touching the state. -/
def ret (result : Value) : Program State Error Value :=
  fun state => .value result state

/-- One program after the other; an exception skips the second one. -/
def andThen (first : Program State Error Value)
    (second : Value → Program State Error Next) : Program State Error Next :=
  fun state =>
    match first state with
    | .value result state => second result state
    | .thrown error state => .thrown error state
    | .undefined => .undefined

instance : Monad (Program State Error) where
  pure := ret
  bind := andThen

def raise (error : Error) : Program State Error Value :=
  fun state => .thrown error state

/-- A step that is undefined where the function has no value. -/
def update (change : State → Option (Value × State)) : Program State Error Value :=
  fun state =>
    match change state with
    | none => .undefined
    | some (result, state) => .value result state

/-- Look at the state. -/
def read (look : State → Value) : Program State Error Value :=
  update fun state => some (look state, state)

/-- Change the state. -/
def modify (change : State → State) : Program State Error Unit :=
  update fun state => some ((), change state)

/-- Run a clean-up when an exception passes through. -/
def onThrow (program : Program State Error Value) (cleanUp : State → State) :
    Program State Error Value :=
  fun state =>
    match program state with
    | .thrown error state => .thrown error (cleanUp state)
    | outcome => outcome

/-- Run a program on a part of the state, where there is such a part. -/
def focus (view : Whole → Option State) (put : Whole → State → Whole)
    (program : Program State Error Value) : Program Whole Error Value :=
  fun whole =>
    match view whole with
    | none => .undefined
    | some part =>
        match program part with
        | .value result after => .value result (put whole after)
        | .thrown error after => .thrown error (put whole after)
        | .undefined => .undefined

end Program

open Program

/-- The outcome is defined and meets the postcondition of its kind. -/
def Outcome.Satisfies (outcome : Outcome State Error Value)
    (post : Value → State → Prop) (exceptional : Error → State → Prop) : Prop :=
  match outcome with
  | .value result state => post result state
  | .thrown error state => exceptional error state
  | .undefined => False

/-- The state a program ends in, whether it returns or throws. -/
def Outcome.EndsIn (outcome : Outcome State Error Value) (after : State) : Prop :=
  match outcome with
  | .value _ state => after = state
  | .thrown _ state => after = state
  | .undefined => False

/-- What a program does from a state. -/
def Meets (program : Program State Error Value) (state : State)
    (post : Value → State → Prop) (exceptional : Error → State → Prop) : Prop :=
  (program state).Satisfies post exceptional

section Rules

variable {program : Program State Error Value} {state : State}
  {post : Value → State → Prop} {exceptional : Error → State → Prop}

@[simp]
theorem meets_pure {result : Value} :
    Meets (pure result : Program State Error Value) state post exceptional ↔
      post result state :=
  Iff.rfl

@[simp]
theorem meets_raise {error : Error} :
    Meets (raise error : Program State Error Value) state post exceptional ↔
      exceptional error state :=
  Iff.rfl

/-- A step that is defined is described by its value. -/
theorem meets_update {change : State → Option (Value × State)} {result : Value}
    {after : State} (hchange : change state = some (result, after))
    (hpost : post result after) :
    Meets (update change : Program State Error Value) state post exceptional := by
  rw [Meets, update, hchange]
  exact hpost

/-- A step that is defined passes its value on. -/
theorem bind_update_eq {change : State → Option (Value × State)} {result : Value}
    {after : State} (hchange : change state = some (result, after))
    (second : Value → Program State Error Next) :
    (update change >>= second) state = second result after := by
  change andThen (update change) second state = second result after
  rw [andThen, update, hchange]

/-- A step that is not defined leaves nothing defined behind it. -/
theorem bind_update_undefined {change : State → Option (Value × State)}
    (hchange : change state = none) (second : Value → Program State Error Next) :
    (update change >>= second) state = .undefined := by
  change andThen (update change) second state = .undefined
  rw [andThen, update, hchange]

theorem bind_value_eq {after : State} {result : Value}
    (hvalue : program state = .value result after)
    (second : Value → Program State Error Next) :
    (program >>= second) state = second result after := by
  change andThen program second state = second result after
  rw [andThen, hvalue]

theorem meets_bind_update {change : State → Option (Value × State)} {result : Value}
    {after : State} (hchange : change state = some (result, after))
    {second : Value → Program State Error Next} {final : Next → State → Prop} :
    Meets (update change >>= second) state final exceptional ↔
      Meets (second result) after final exceptional := by
  rw [Meets, Meets, bind_update_eq hchange]

@[simp]
theorem meets_bind_read {look : State → Value} {second : Value → Program State Error Next}
    {final : Next → State → Prop} :
    Meets (read look >>= second) state final exceptional ↔
      Meets (second (look state)) state final exceptional :=
  meets_bind_update rfl

@[simp]
theorem meets_bind_modify {change : State → State} {second : Unit → Program State Error Next}
    {final : Next → State → Prop} :
    Meets (modify change >>= second) state final exceptional ↔
      Meets (second ()) (change state) final exceptional :=
  meets_bind_update rfl

theorem Meets.mono {post' : Value → State → Prop} {exceptional' : Error → State → Prop}
    (hmeets : Meets program state post exceptional)
    (hpost : ∀ result after, post result after → post' result after)
    (hexceptional : ∀ error after, exceptional error after → exceptional' error after) :
    Meets program state post' exceptional' := by
  rw [Meets] at hmeets ⊢
  cases houtcome : program state with
  | value result after =>
      rw [houtcome] at hmeets
      exact hpost result after hmeets
  | thrown error after =>
      rw [houtcome] at hmeets
      exact hexceptional error after hmeets
  | undefined =>
      rw [houtcome] at hmeets
      exact hmeets

/-- The postcondition may speak of the outcome itself. -/
theorem Meets.outcome (hmeets : Meets program state post exceptional) :
    Meets program state
      (fun result after => post result after ∧ program state = .value result after)
      exceptional := by
  rw [Meets] at hmeets ⊢
  cases houtcome : program state with
  | value result after =>
      rw [houtcome] at hmeets
      exact ⟨hmeets, rfl⟩
  | thrown error after =>
      rw [houtcome] at hmeets
      exact hmeets
  | undefined =>
      rw [houtcome] at hmeets
      exact hmeets

/-- A program that never throws meets every exceptional postcondition. -/
theorem Meets.noThrow (hmeets : Meets program state post (fun _ _ => False)) :
    Meets program state post exceptional :=
  hmeets.mono (fun _ _ hdone => hdone) (fun _ _ hfalse => hfalse.elim)

/-- The rule for sequences, with a condition on the state in between. -/
theorem Meets.bind {second : Value → Program State Error Next}
    {between : Value → State → Prop} {final : Next → State → Prop}
    (hfirst : Meets program state between exceptional)
    (hsecond : ∀ result after, between result after →
      Meets (second result) after final exceptional) :
    Meets (program >>= second) state final exceptional := by
  have hbind : (program >>= second) state = andThen program second state := rfl
  rw [Meets] at hfirst ⊢
  rw [hbind, andThen]
  cases houtcome : program state with
  | value result after =>
      rw [houtcome] at hfirst
      exact hsecond result after hfirst
  | thrown error after =>
      rw [houtcome] at hfirst
      exact hfirst
  | undefined =>
      rw [houtcome] at hfirst
      exact hfirst.elim

/-- The same where the first program says more about its exceptions. -/
theorem Meets.bindWith {second : Value → Program State Error Next}
    {between : Value → State → Prop} {thrown : Error → State → Prop}
    {final : Next → State → Prop}
    (hfirst : Meets program state between thrown)
    (hsecond : ∀ result after, between result after →
      Meets (second result) after final exceptional)
    (hthrown : ∀ error after, thrown error after → exceptional error after) :
    Meets (program >>= second) state final exceptional :=
  (hfirst.mono (fun _ _ hdone => hdone) hthrown).bind hsecond

/-- A program that is run for its effect only. -/
theorem Meets.discard {holds : State → Prop}
    (hmeets : Meets program state (fun _ => holds) exceptional) :
    Meets (program >>= fun _ => pure ()) state (fun _ => holds) exceptional :=
  hmeets.bind fun _ _ hholds => hholds

/-- A weaker statement about the state at the end, however it is reached. -/
theorem Meets.weaken {holds holds' : State → Prop}
    (hmeets : Meets program state (fun _ => holds) (fun _ => holds))
    (hweaker : ∀ after, holds after → holds' after) :
    Meets program state (fun _ => holds') (fun _ => holds') :=
  hmeets.mono (fun _ => hweaker) (fun _ => hweaker)

theorem Meets.onThrow {cleanUp : State → State}
    (hmeets : Meets program state post
      (fun error after => exceptional error (cleanUp after))) :
    Meets (program.onThrow cleanUp) state post exceptional := by
  rw [Meets] at hmeets ⊢
  rw [Program.onThrow]
  cases houtcome : program state with
  | value result after =>
      rw [houtcome] at hmeets
      exact hmeets
  | thrown error after =>
      rw [houtcome] at hmeets
      exact hmeets
  | undefined =>
      rw [houtcome] at hmeets
      exact hmeets

/-- A program on a part of the state, with postconditions about the whole. -/
theorem Meets.focus {view : Whole → Option State} {put : Whole → State → Whole}
    {whole : Whole} {wholePost : Value → Whole → Prop} {wholeExceptional : Error → Whole → Prop}
    (hview : view whole = some state)
    (hmeets : Meets program state (fun result after => wholePost result (put whole after))
      (fun error after => wholeExceptional error (put whole after))) :
    Meets (program.focus view put) whole wholePost wholeExceptional := by
  rw [Meets] at hmeets ⊢
  simp only [Program.focus, hview]
  cases houtcome : program state with
  | value result after =>
      rw [houtcome] at hmeets
      exact hmeets
  | thrown error after =>
      rw [houtcome] at hmeets
      exact hmeets
  | undefined =>
      rw [houtcome] at hmeets
      exact hmeets

/-- What both postconditions say holds in the state at the end. -/
theorem Meets.endsIn {holds : State → Prop} {after : State}
    (hmeets : Meets program state (fun _ => holds) (fun _ => holds))
    (hends : (program state).EndsIn after) : holds after := by
  rw [Meets] at hmeets
  cases houtcome : program state with
  | value result final =>
      rw [houtcome] at hmeets hends
      rwa [show after = final from hends]
  | thrown error final =>
      rw [houtcome] at hmeets hends
      rwa [show after = final from hends]
  | undefined =>
      rw [houtcome] at hends
      exact hends.elim

/-- A step that ends is defined. -/
theorem endsIn_update {change : State → Option (Value × State)} {after : State}
    (hends : ((update change : Program State Error Value) state).EndsIn after) :
    ∃ result, change state = some (result, after) := by
  rw [update] at hends
  cases hchange : change state with
  | none =>
      rw [hchange] at hends
      exact hends.elim
  | some next =>
      rw [hchange] at hends
      exact ⟨next.1, by rw [show after = next.2 from hends]⟩

/-- A program on a part of the state ends where it ends on that part. -/
theorem endsIn_focus {view : Whole → Option State} {put : Whole → State → Whole}
    {whole after : Whole} (hends : (program.focus view put whole).EndsIn after) :
    ∃ part final, view whole = some part ∧ (program part).EndsIn final ∧
      after = put whole final := by
  rw [Program.focus] at hends
  cases hview : view whole with
  | none =>
      rw [hview] at hends
      exact hends.elim
  | some part =>
      simp only [hview] at hends
      cases houtcome : program part with
      | value result final =>
          rw [houtcome] at hends
          exact ⟨part, final, rfl, by rw [houtcome]; rfl, hends⟩
      | thrown error final =>
          rw [houtcome] at hends
          exact ⟨part, final, rfl, by rw [houtcome]; rfl, hends⟩
      | undefined =>
          rw [houtcome] at hends
          exact hends.elim

end Rules

end Nstl.Programs
