import Mathlib.Data.List.Count
import Mathlib.Tactic.Common

/-!
# Reference counts

A table says how many users each thing has, as long as it is there, and a list
holds the references.  The two agree if every thing is there exactly as long as
something refers to it; adding a user and taking one off keep them in step.
-/

set_option autoImplicit false

namespace OaiPmip.Refcount

variable {ι : Type} [DecidableEq ι] {users users' : ι → Option Int} {refs refs' : List ι} {j : ι}

def Counts (users : ι → Option Int) (refs : List ι) : Prop :=
  ∀ i, users i = if i ∈ refs then some (refs.count i : Int) else none

theorem Counts.nothing (empty : ∀ i, users i = none) : Counts users ([] : List ι) := by
  intro i
  rw [empty i, if_neg List.not_mem_nil]

theorem Counts.perm (counts : Counts users refs) (same : refs.Perm refs') :
    Counts users refs' := by
  intro i
  rw [counts i, same.count_eq i]
  by_cases member : i ∈ refs
  · rw [if_pos member, if_pos (same.mem_iff.mp member)]
  · rw [if_neg member, if_neg (fun inOther => member (same.mem_iff.mpr inOther))]

theorem Counts.congr (counts : Counts users refs) (same : ∀ i, users' i = users i) :
    Counts users' refs := by
  intro i
  rw [same i]
  exact counts i

theorem Counts.used (counts : Counts users refs) (member : j ∈ refs) :
    ∃ n, users j = some n ∧ 0 < n := by
  refine ⟨refs.count j, ?_, ?_⟩
  · rw [counts j, if_pos member]
  · exact Int.natCast_pos.mpr (List.count_pos_iff.mpr member)

theorem Counts.unused (counts : Counts users refs) (missing : users j = none) : j ∉ refs := by
  intro member
  obtain ⟨n, isUsed, -⟩ := counts.used member
  rw [missing] at isUsed
  cases isUsed

theorem Counts.single (counts : Counts users (j :: refs)) (one : users j = some 1) :
    j ∉ refs := by
  intro member
  have count := counts j
  have more := List.count_pos_iff.mpr member
  rw [if_pos List.mem_cons_self, List.count_cons_self, one, Option.some.injEq] at count
  omega

theorem Counts.add (counts : Counts users refs)
    (here : users' j = some ((users j).getD 0 + 1))
    (others : ∀ i, i ≠ j → users' i = users i) : Counts users' (j :: refs) := by
  intro i
  by_cases same : i = j
  · subst same
    rw [here, counts i, if_pos List.mem_cons_self, List.count_cons_self]
    by_cases member : i ∈ refs
    · rw [if_pos member]
      rfl
    · rw [if_neg member, List.count_eq_zero_of_not_mem member]
      rfl
  · have kept : i ∈ j :: refs ↔ i ∈ refs := List.mem_cons.trans (or_iff_right same)
    rw [others i same, counts i, List.count_cons_of_ne (Ne.symm same)]
    simp only [kept]

theorem Counts.drop (counts : Counts users (j :: refs))
    (here : users' j = (users j).bind fun n => if n = 1 then none else some (n - 1))
    (others : ∀ i, i ≠ j → users' i = users i) : Counts users' refs := by
  intro i
  by_cases same : i = j
  · subst same
    rw [here, counts i, if_pos List.mem_cons_self, List.count_cons_self, Option.bind_some]
    by_cases member : i ∈ refs
    · have more := List.count_pos_iff.mpr member
      rw [if_pos member, if_neg (by omega)]
      congr 1
      omega
    · rw [if_neg member, List.count_eq_zero_of_not_mem member]
      rfl
  · have kept : i ∈ j :: refs ↔ i ∈ refs := List.mem_cons.trans (or_iff_right same)
    rw [others i same, counts i, List.count_cons_of_ne (Ne.symm same)]
    simp only [kept]

end OaiPmip.Refcount
