import Mathlib.Tactic.Common

/-!
# Runs of a step function that may crash

A step function takes a state and one input and either returns the next state
or crashes.  A run folds it over a list of inputs and ends at the first crash.
`Meets` says of a run that every one of its steps, crashing or not, is taken
from a state and with an input that satisfy a given condition; `run_invariant`
carries an invariant along such a run.
-/

set_option autoImplicit false

namespace OaiPmip.Runs

variable {State Input Crash : Type}

def run (step : State → Input → Except Crash State) :
    State → List Input → Except Crash State
  | state, [] => .ok state
  | state, input :: rest =>
      match step state input with
      | .ok next => run step next rest
      | .error crash => .error crash

def Meets (step : State → Input → Except Crash State)
    (condition : State → Input → Prop) : State → List Input → Prop
  | _, [] => True
  | state, input :: rest =>
      condition state input ∧
        ∀ next, step state input = .ok next → Meets step condition next rest

variable {step : State → Input → Except Crash State}

/-- Whether a concrete run meets a decidable condition can be evaluated. -/
instance decidableMeets {condition : State → Input → Prop}
    [∀ state input, Decidable (condition state input)] :
    ∀ (inputs : List Input) (state : State), Decidable (Meets step condition state inputs)
  | [], _ => .isTrue trivial
  | input :: rest, state =>
      match taken : step state input with
      | .error crash =>
          decidable_of_iff (condition state input)
            ⟨fun here => ⟨here, fun next ok => by rw [taken] at ok; cases ok⟩, fun meets => meets.1⟩
      | .ok next =>
          have : Decidable (Meets step condition next rest) := decidableMeets rest next
          decidable_of_iff (condition state input ∧ Meets step condition next rest)
            ⟨fun both => ⟨both.1, fun other ok => by rw [taken] at ok; cases ok; exact both.2⟩,
              fun meets => ⟨meets.1, meets.2 next taken⟩⟩

theorem run_cons_ok {state final : State} {input : Input} {rest : List Input}
    (success : run step state (input :: rest) = .ok final) :
    ∃ next, step state input = .ok next ∧ run step next rest = .ok final := by
  cases taken : step state input with
  | ok next =>
      simp only [run, taken] at success
      exact ⟨next, rfl, success⟩
  | error crash => simp [run, taken] at success

theorem run_append_ok {first second : List Input} {state final : State}
    (success : run step state (first ++ second) = .ok final) :
    ∃ middle, run step state first = .ok middle ∧
      run step middle second = .ok final := by
  induction first generalizing state with
  | nil => exact ⟨state, rfl, success⟩
  | cons input rest ih =>
      obtain ⟨next, taken, restRun⟩ := run_cons_ok success
      obtain ⟨middle, firstRun, secondRun⟩ := ih restRun
      exact ⟨middle, by simp only [run, taken, firstRun], secondRun⟩

/-- The invariant rule: what holds at the start and is kept by every step that
meets the condition holds at the end of every run that meets it. -/
theorem run_invariant {condition : State → Input → Prop}
    {invariant : State → Prop}
    (keeps : ∀ state input next, invariant state → condition state input →
      step state input = .ok next → invariant next)
    {inputs : List Input} {state final : State} (start : invariant state)
    (meets : Meets step condition state inputs)
    (success : run step state inputs = .ok final) : invariant final := by
  induction inputs generalizing state with
  | nil =>
      cases success
      exact start
  | cons input rest ih =>
      obtain ⟨next, taken, restRun⟩ := run_cons_ok success
      exact ih (keeps state input next start meets.1 taken) (meets.2 next taken)
        restRun

theorem run_succeeds {condition : State → Input → Prop} {invariant : State → Prop}
    (keeps : ∀ state input, invariant state → condition state input →
      ∃ next, step state input = .ok next ∧ invariant next)
    {inputs : List Input} {state : State} (start : invariant state)
    (meets : Meets step condition state inputs) :
    ∃ final, run step state inputs = .ok final ∧ invariant final := by
  induction inputs generalizing state with
  | nil => exact ⟨state, rfl, start⟩
  | cons input rest ih =>
      obtain ⟨next, taken, held⟩ := keeps state input start meets.1
      obtain ⟨final, finished, ends⟩ := ih held (meets.2 next taken)
      exact ⟨final, by simp only [run, taken, finished], ends⟩

theorem meets_always {condition : State → Input → Prop}
    (always : ∀ state input, condition state input) :
    ∀ (inputs : List Input) (state : State), Meets step condition state inputs := by
  intro inputs
  induction inputs with
  | nil => intro state; trivial
  | cons input rest ih => exact fun state => ⟨always state input, fun next _ => ih next⟩

theorem meets_of_mem {allowed : Input → Prop} {inputs : List Input}
    (all : ∀ input ∈ inputs, allowed input) (state : State) :
    Meets step (fun _ => allowed) state inputs := by
  induction inputs generalizing state with
  | nil => trivial
  | cons input rest ih =>
      refine ⟨all input List.mem_cons_self, fun next _ => ih ?_ next⟩
      intro other member
      exact all other (List.mem_cons_of_mem _ member)

theorem Meets.cons {condition : State → Input → Prop} {state next : State} {input : Input}
    {rest : List Input} (here : condition state input) (taken : step state input = .ok next)
    (later : Meets step condition next rest) : Meets step condition state (input :: rest) := by
  refine ⟨here, fun other isOther => ?_⟩
  rw [taken] at isOther
  cases isOther
  exact later

theorem Meets.implies {first second : State → Input → Prop} {invariant : State → Prop}
    (implies : ∀ state input, invariant state → first state input → second state input)
    (keeps : ∀ state input next, invariant state → first state input →
      step state input = .ok next → invariant next)
    {inputs : List Input} {state : State} (start : invariant state)
    (meets : Meets step first state inputs) : Meets step second state inputs := by
  induction inputs generalizing state with
  | nil => trivial
  | cons input rest ih =>
      refine ⟨implies state input start meets.1, fun next taken => ?_⟩
      exact ih (keeps state input next start meets.1 taken) (meets.2 next taken)

theorem Meets.weaken {first second : State → Input → Prop}
    (implies : ∀ state input, first state input → second state input) {inputs : List Input}
    {state : State} (meets : Meets step first state inputs) : Meets step second state inputs := by
  induction inputs generalizing state with
  | nil => trivial
  | cons input rest ih =>
      refine ⟨implies state input meets.1, ?_⟩
      intro next taken
      exact ih (meets.2 next taken)

theorem meets_iff_of_invariant {first second : State → Input → Prop}
    {invariant : State → Prop} {allowed : Input → Prop}
    (agree : ∀ state input, allowed input → invariant state →
      (first state input ↔ second state input))
    (keeps : ∀ state input next, allowed input → invariant state → second state input →
      step state input = .ok next → invariant next) :
    ∀ (inputs : List Input) (state : State), (∀ input ∈ inputs, allowed input) →
      invariant state → (Meets step first state inputs ↔ Meets step second state inputs) := by
  intro inputs
  induction inputs with
  | nil => intro state _ _; exact Iff.rfl
  | cons input rest ih =>
      intro state inputsAllowed start
      have here : allowed input := inputsAllowed input (by simp)
      have later : ∀ other ∈ rest, allowed other := fun other member =>
        inputsAllowed other (by simp [member])
      constructor
      · intro given
        obtain ⟨now, after⟩ := given
        have there := (agree state input here start).mp now
        refine ⟨there, fun next taken => ?_⟩
        exact (ih next later (keeps state input next here start there taken)).mp
          (after next taken)
      · intro given
        obtain ⟨now, after⟩ := given
        refine ⟨(agree state input here start).mpr now, fun next taken => ?_⟩
        exact (ih next later (keeps state input next here start now taken)).mpr
          (after next taken)

/-- Where an invariant holds in any case, a condition that is exactly what it
takes for a step to lead to a good state is met by exactly the runs all of whose
states are good. -/
theorem meets_iff_reached {condition : State → Input → Prop} {invariant good : State → Prop}
    (keeps : ∀ state input next, invariant state → step state input = .ok next → invariant next)
    (exact : ∀ state input, invariant state → good state →
      (condition state input ↔ ∀ next, step state input = .ok next → good next))
    {inputs : List Input} {state : State} (start : invariant state) (first : good state) :
    Meets step condition state inputs ↔ ∀ earlier later final, inputs = earlier ++ later →
      run step state earlier = .ok final → good final := by
  induction inputs generalizing state with
  | nil =>
      refine ⟨fun _ earlier later final split success => ?_, fun _ => trivial⟩
      obtain ⟨rfl, rfl⟩ := List.append_eq_nil_iff.mp split.symm
      cases success
      exact first
  | cons input rest ih =>
      constructor
      · rintro ⟨here, after⟩ earlier later final split success
        cases earlier with
        | nil =>
            cases success
            exact first
        | cons other before =>
            obtain ⟨rfl, rfl⟩ := List.cons.inj split
            obtain ⟨next, taken, restRun⟩ := run_cons_ok success
            have nextGood := (exact state input start first).mp here next taken
            exact (ih (keeps state input next start taken) nextGood).mp (after next taken)
              before later final rfl restRun
      · intro reached
        have nextGood : ∀ next, step state input = .ok next → good next := by
          intro next taken
          exact reached [input] rest next rfl (by simp only [run, taken])
        refine ⟨(exact state input start first).mpr nextGood, fun next taken => ?_⟩
        apply (ih (keeps state input next start taken) (nextGood next taken)).mpr
        intro earlier later final split success
        exact reached (input :: earlier) later final (by rw [split]; rfl)
          (by simp only [run, taken, success])

/-! ## Postconditions

`Ends tolerated post` says of a computation that its result satisfies `post` and
that it ends in no failure but a tolerated one. -/

section Ends
variable {First Result Failure : Type} {tolerated : Failure → Prop}

def Ends (tolerated : Failure → Prop) (post : Result → Prop) : Except Failure Result → Prop
  | .ok result => post result
  | .error failure => tolerated failure

theorem Ends.bind {before : First → Prop} {post : Result → Prop} {x : Except Failure First}
    {f : First → Except Failure Result} (first : Ends tolerated before x)
    (second : ∀ next, x = .ok next → before next → Ends tolerated post (f next)) :
    Ends tolerated post (x >>= f) := by
  cases x with
  | ok next => exact second next rfl first
  | error failure => exact first

theorem Ends.of_ok {post : Result → Prop} {x : Except Failure Result} {result : Result}
    (ends : Ends tolerated post x) (ok : x = .ok result) : post result := by
  rw [ok] at ends
  exact ends

theorem Ends.imp {post weaker : Result → Prop} {x : Except Failure Result}
    (ends : Ends tolerated post x) (implies : ∀ result, x = .ok result → post result → weaker result) :
    Ends tolerated weaker x := by
  cases x with
  | ok result => exact implies result rfl ends
  | error failure => exact ends

theorem Ends.forgive {more : Failure → Prop} {post : Result → Prop} {x : Except Failure Result}
    (ends : Ends tolerated post x) (forgives : ∀ failure, tolerated failure → more failure) :
    Ends more post x := by
  cases x with
  | ok result => exact ends
  | error failure => exact forgives failure ends

theorem run_ends {tolerated : Crash → Prop} {invariant : State → Prop} {inputs : List Input}
    (keeps : ∀ state, ∀ input ∈ inputs, invariant state →
      Ends tolerated invariant (step state input))
    {state : State} (start : invariant state) :
    Ends tolerated invariant (run step state inputs) := by
  induction inputs generalizing state with
  | nil => exact start
  | cons input rest ih =>
      have taken := keeps state input (by simp) start
      unfold run
      split
      · rename_i next isNext
        exact ih (fun other later member => keeps other later (by simp [member]))
          (taken.of_ok isNext)
      · rename_i crash isCrash
        rw [isCrash] at taken
        exact taken

end Ends

/-! ## Steps that crash in a state

A computation whose crash carries the state it had reached.  A transitive
relation between the state before and the state reached is built up along the
binds. -/

section Reached
variable {Result : Type}

theorem bind_eq_ok {Failure First : Type} {x : Except Failure First}
    {f : First → Except Failure Result} {result : Result} :
    (x >>= f) = .ok result ↔ ∃ first, x = .ok first ∧ f first = .ok result := by
  cases x with
  | ok first => simp [bind, Except.bind]
  | error failure => simp [bind, Except.bind]

@[simp] theorem ok_bind {Failure First : Type} (first : First)
    (f : First → Except Failure Result) : (Except.ok first >>= f) = f first := rfl

def reached : Except (Crash × State) State → State
  | .ok state => state
  | .error (_, state) => state

@[simp] theorem reached_ok (state : State) :
    reached (.ok state : Except (Crash × State) State) = state := rfl

@[simp] theorem reached_pure (state : State) :
    reached (pure state : Except (Crash × State) State) = state := rfl

theorem reached_bind {relation : State → State → Prop}
    (trans : ∀ {first second third}, relation first second → relation second third →
      relation first third)
    {state : State} {x : Except (Crash × State) State}
    {f : State → Except (Crash × State) State} (before : relation state (reached x))
    (after : ∀ next, x = .ok next → relation next (reached (f next))) :
    relation state (reached (x >>= f)) := by
  cases x with
  | ok next => exact trans before (after next rfl)
  | error failure => exact before

end Reached

end OaiPmip.Runs
