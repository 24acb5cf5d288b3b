import Mathlib.Data.List.Basic
import Mathlib.Data.List.Pairwise
import Mathlib.Tactic.Common

/-!
# Records one after another

Records that say themselves how long they are, from an offset on to the end of
what holds them.  The last one may reach beyond the end.
-/

set_option autoImplicit false

namespace OaiPmip.Records

structure Framing where
  size : Nat → Nat
  pos : ∀ i, 0 < size i

namespace Framing
variable (f : Framing)

/-- The offsets of the records from `i` on; the fuel is the number of bytes. -/
def offsetsFrom (stop : Nat) : Nat → Nat → List Nat
  | 0, _ => []
  | fuel + 1, i => if i < stop then i :: offsetsFrom stop fuel (i + f.size i) else []

def offsets (i stop : Nat) : List Nat := f.offsetsFrom stop (stop - i) i

variable {i stop : Nat}

theorem offsetsFrom_enough {fuel fuel' : Nat} (enough : stop - i ≤ fuel)
    (enough' : stop - i ≤ fuel') :
    f.offsetsFrom stop fuel i = f.offsetsFrom stop fuel' i := by
  have advances := f.pos i
  induction fuel generalizing fuel' i with
  | zero =>
      cases fuel' with
      | zero => rfl
      | succ fuel' => rw [offsetsFrom, offsetsFrom, if_neg (by omega)]
  | succ fuel ih =>
      cases fuel' with
      | zero => rw [offsetsFrom, offsetsFrom, if_neg (by omega)]
      | succ fuel' =>
          simp only [offsetsFrom]
          split
          · exact congrArg (i :: ·) (ih (by omega) (by omega) (f.pos _))
          · rfl

theorem offsets_nil (outside : stop ≤ i) : f.offsets i stop = [] := by
  rw [offsets, Nat.sub_eq_zero_of_le outside, offsetsFrom]

theorem offsets_cons (inside : i < stop) :
    f.offsets i stop = i :: f.offsets (i + f.size i) stop := by
  have advances := f.pos i
  rw [offsets, f.offsetsFrom_enough (Nat.le_refl _) (Nat.le_succ _), offsetsFrom, if_pos inside]
  exact congrArg (i :: ·) (f.offsetsFrom_enough (by omega) (Nat.le_refl _))

theorem offsets_induction (stop : Nat) {motive : Nat → Prop} (ends : ∀ i, stop ≤ i → motive i)
    (record : ∀ i, i < stop → motive (i + f.size i) → motive i) (i : Nat) : motive i := by
  induction left : stop - i using Nat.strongRecOn generalizing i with
  | _ left ih =>
      by_cases inside : i < stop
      · have advances := f.pos i
        exact record i inside (ih (stop - (i + f.size i)) (by omega) _ rfl)
      · exact ends i (by omega)

theorem offsets_range : ∀ j ∈ f.offsets i stop, i ≤ j ∧ j < stop := by
  induction i using f.offsets_induction stop with
  | ends i outside => simp [f.offsets_nil outside]
  | record i inside ih =>
      intro j member
      rw [f.offsets_cons inside] at member
      rcases List.mem_cons.mp member with rfl | later
      · exact ⟨Nat.le_refl _, inside⟩
      · have bounds := ih j later
        omega

theorem offsets_apart : (f.offsets i stop).Pairwise fun j k => j + f.size j ≤ k := by
  induction i using f.offsets_induction stop with
  | ends i outside => simp [f.offsets_nil outside]
  | record i inside ih =>
      rw [f.offsets_cons inside]
      exact List.pairwise_cons.mpr ⟨fun k later => (f.offsets_range k later).1, ih⟩

theorem offsets_disjoint {j k : Nat} (isRecord : j ∈ f.offsets i stop)
    (isOther : k ∈ f.offsets i stop) (differ : j ≠ k) : j + f.size j ≤ k ∨ k + f.size k ≤ j := by
  have either : (f.offsets i stop).Pairwise fun j k => j + f.size j ≤ k ∨ k + f.size k ≤ j :=
    f.offsets_apart.imp Or.inl
  have symmetric : Std.Symm fun j k => j + f.size j ≤ k ∨ k + f.size k ≤ j := ⟨fun _ _ => Or.symm⟩
  exact either.forall isRecord isOther differ

theorem offsets_increasing : (f.offsets i stop).Pairwise (· < ·) := by
  refine f.offsets_apart.imp ?_
  intro j k apart
  have advances := f.pos j
  omega

theorem offsets_getLast {j : Nat} (member : j ∈ f.offsets i stop) :
    (f.offsets i stop).getLast? = some j ∨ j + f.size j < stop := by
  induction i using f.offsets_induction stop with
  | ends i outside => simp [f.offsets_nil outside] at member
  | record i inside ih =>
      rw [f.offsets_cons inside] at member ⊢
      rcases List.mem_cons.mp member with rfl | later
      · by_cases further : j + f.size j < stop
        · exact Or.inr further
        · rw [f.offsets_nil (Nat.not_lt.mp further)]
          exact Or.inl rfl
      · refine (ih later).imp_left ?_
        intro last
        rw [List.getLast?_cons, last, Option.getD_some]

theorem offsets_cut {less : Nat} (smaller : less ≤ stop) :
    f.offsets i less = (f.offsets i stop).filter (· < less) := by
  induction i using f.offsets_induction stop with
  | ends i outside =>
      rw [f.offsets_nil outside, f.offsets_nil (Nat.le_trans smaller outside), List.filter_nil]
  | record i inside ih =>
      rw [f.offsets_cons inside, List.filter_cons]
      by_cases before : i < less
      · rw [f.offsets_cons before, ih, if_pos (by simpa using before)]
      · rw [f.offsets_nil (by omega), if_neg (by simpa using before)]
        symm
        apply List.filter_eq_nil_iff.mpr
        intro k later
        have bounds := f.offsets_range k later
        simp only [decide_eq_true_eq]
        omega

theorem filter_offsets (p : Nat → Bool) :
    (f.offsets i stop).filter p =
      match (f.offsets i stop).find? p with
      | none => []
      | some next => next :: (f.offsets (next + f.size next) stop).filter p := by
  induction i using f.offsets_induction stop with
  | ends i outside => simp [f.offsets_nil outside]
  | record i inside ih =>
      rw [f.offsets_cons inside]
      by_cases here : p i = true
      · simp [here]
      · simp only [List.filter_cons, here, List.find?_cons]
        exact ih

end Framing

end OaiPmip.Records
