import Mathlib.Logic.Relation
import Mathlib.Tactic.Common

/-!
# Loops that may not end

The body of a loop goes round again, is done with a result, or faults.  `Ends`
says which way out a loop takes from a state, and `never_ends` that it takes
none: every turn of it leads to another one.
-/

set_option autoImplicit false

namespace OaiPmip.Loops

inductive Turn (State Result : Type) where
  | again (next : State)
  | done (result : Result)
  deriving DecidableEq

variable {State Result Fault : Type}

/-- At most as many turns as there is fuel; `none` is a loop still running. -/
def loop (body : State → Except Fault (Turn State Result)) :
    Nat → State → Option (Except Fault Result)
  | 0, _ => none
  | fuel + 1, s =>
      match body s with
      | .ok (.again next) => loop body fuel next
      | .ok (.done result) => some (.ok result)
      | .error fault => some (.error fault)

def Ends (body : State → Except Fault (Turn State Result)) (s : State)
    (outcome : Except Fault Result) : Prop := ∃ fuel, loop body fuel s = some outcome

variable {body : State → Except Fault (Turn State Result)}

/-! ## One turn -/

section OneTurn
variable {s next : State} {outcome : Except Fault Result}

theorem ends_again (turn : body s = .ok (.again next)) :
    Ends body s outcome ↔ Ends body next outcome := by
  constructor
  · intro ends
    obtain ⟨fuel, finished⟩ := ends
    cases fuel with
    | zero => cases finished
    | succ fuel =>
        simp only [loop, turn] at finished
        exact ⟨fuel, finished⟩
  · intro ends
    obtain ⟨fuel, finished⟩ := ends
    exact ⟨fuel + 1, by simp only [loop, turn, finished]⟩

theorem ends_done {result : Result} (turn : body s = .ok (.done result)) :
    Ends body s outcome ↔ outcome = .ok result := by
  constructor
  · intro ends
    obtain ⟨fuel, finished⟩ := ends
    cases fuel with
    | zero => cases finished
    | succ fuel =>
        simp only [loop, turn, Option.some.injEq] at finished
        exact finished.symm
  · intro same
    exact ⟨1, by simp only [loop, turn, same]⟩

theorem ends_fault {fault : Fault} (turn : body s = .error fault) :
    Ends body s outcome ↔ outcome = .error fault := by
  constructor
  · intro ends
    obtain ⟨fuel, finished⟩ := ends
    cases fuel with
    | zero => cases finished
    | succ fuel =>
        simp only [loop, turn, Option.some.injEq] at finished
        exact finished.symm
  · intro same
    exact ⟨1, by simp only [loop, turn, same]⟩

end OneTurn

/-! ## Every turn -/

theorem Ends.invariant {invariant : State → Prop} {s : State} {outcome : Except Fault Result}
    (keeps : ∀ s next, invariant s → body s = .ok (.again next) → invariant next)
    (start : invariant s) (ends : Ends body s outcome) :
    ∃ last, invariant last ∧ Ends body last outcome ∧
      ∀ next, body last ≠ .ok (.again next) := by
  obtain ⟨fuel, finished⟩ := ends
  induction fuel generalizing s with
  | zero => cases finished
  | succ fuel ih =>
      by_cases goesOn : ∃ next, body s = .ok (.again next)
      · obtain ⟨next, turn⟩ := goesOn
        simp only [loop, turn] at finished
        exact ih (keeps s next start turn) finished
      · exact ⟨s, start, ⟨fuel + 1, finished⟩, fun next turn => goesOn ⟨next, turn⟩⟩

theorem Ends.unique {s : State} {first second : Except Fault Result} (ends : Ends body s first)
    (other : Ends body s second) : first = second := by
  obtain ⟨fuel, finished⟩ := ends
  induction fuel generalizing s with
  | zero => cases finished
  | succ fuel ih =>
      cases turn : body s with
      | error fault =>
          simp only [loop, turn, Option.some.injEq] at finished
          rw [(ends_fault turn).mp other, finished]
      | ok turned =>
          cases turned with
          | again next =>
              simp only [loop, turn] at finished
              exact ih ((ends_again turn).mp other) finished
          | done result =>
              simp only [loop, turn, Option.some.injEq] at finished
              rw [(ends_done turn).mp other, finished]

/-- States that only lead to states of the same kind are never left. -/
theorem never_ends {stuck : State → Prop}
    (keeps : ∀ s, stuck s → ∃ next, body s = .ok (.again next) ∧ stuck next) {s : State}
    (start : stuck s) (outcome : Except Fault Result) : ¬Ends body s outcome := by
  intro ends
  obtain ⟨fuel, finished⟩ := ends
  induction fuel generalizing s with
  | zero => cases finished
  | succ fuel ih =>
      obtain ⟨next, turn, still⟩ := keeps s start
      simp only [loop, turn] at finished
      exact ih still finished

theorem ends_iff_reaches {s : State} {result : Result} :
    Ends body s (.ok result) ↔
      ∃ last, Relation.ReflTransGen (fun s next => body s = .ok (.again next)) s last ∧
        body last = .ok (.done result) := by
  constructor
  · intro ends
    obtain ⟨last, reached, lastEnds, stops⟩ := @Ends.invariant _ _ _ body
      (Relation.ReflTransGen (fun s next => body s = .ok (.again next)) s) s _
      (fun _ _ reached turn => reached.tail turn) .refl ends
    refine ⟨last, reached, ?_⟩
    cases turn : body last with
    | error fault => cases (ends_fault turn).mp lastEnds
    | ok turned =>
        cases turned with
        | again next => exact absurd turn (stops next)
        | done other =>
            have same := (ends_done turn).mp lastEnds
            cases same
            rfl
  · intro reaches
    obtain ⟨last, reached, turn⟩ := reaches
    induction reached using Relation.ReflTransGen.head_induction_on with
    | refl => exact (ends_done turn).mpr rfl
    | head taken _ ih => exact (ends_again taken).mpr ih

end OaiPmip.Loops
