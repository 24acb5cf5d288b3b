import Mathlib.Data.List.FinRange
import Mathlib.Data.List.Nodup
import Mathlib.Tactic.Common

/-!
# Chained tables

A table is an array of chains.  Nodes carry a key, a hash sends every key to
its bucket, and a node belongs in the bucket of its key (`Placed`).  `toList`
is the order in which a bucket-by-bucket walk meets the nodes.

`get_some`, `get_none` and `erase_spec` say that lookup and removal by key, which
look at one chain only, are lookup and removal in that whole list.
-/

set_option autoImplicit false

namespace OaiPmip.ChainTable

abbrev Table (s : Nat) (N : Type) := Fin s → List N

section Walk
variable {s : Nat} {N : Type}

def empty (s : Nat) (N : Type) : Table s N := fun _ => []

def toList (t : Table s N) : List N := (List.finRange s).flatMap t

def append (t : Table s N) (b : Fin s) (n : N) : Table s N :=
  Function.update t b (t b ++ [n])

@[simp] theorem toList_empty : toList (empty s N) = [] := by
  simp [toList, empty]

@[simp] theorem mem_toList (t : Table s N) (n : N) : n ∈ toList t ↔ ∃ b, n ∈ t b := by
  simp [toList]

/-- The buckets before and after `b`, for reasoning about one changed chain. -/
theorem finRange_split (b : Fin s) :
    ∃ before after : List (Fin s), List.finRange s = before ++ b :: after ∧
      b ∉ before ∧ b ∉ after := by
  obtain ⟨before, after, split⟩ := List.append_of_mem (List.mem_finRange b)
  have nodup : (before ++ b :: after).Nodup := split ▸ List.nodup_finRange s
  have middle := List.nodup_middle.mp nodup
  rw [List.nodup_cons, List.mem_append, not_or] at middle
  exact ⟨before, after, split, middle.1⟩

theorem flatMap_update_of_notMem (t : Table s N) (b : Fin s) (chain : List N)
    (l : List (Fin s)) (absent : b ∉ l) :
    l.flatMap (Function.update t b chain) = l.flatMap t := by
  induction l with
  | nil => rfl
  | cons c rest ih =>
      have different : c ≠ b := fun same => absent (by simp [same])
      have restAbsent : b ∉ rest := fun member => absent (by simp [member])
      simp only [List.flatMap_cons, Function.update_of_ne different, ih restAbsent]

theorem toList_update (t : Table s N) (b : Fin s) :
    ∃ before after : List N, toList t = before ++ t b ++ after ∧
      ∀ chain, toList (Function.update t b chain) = before ++ chain ++ after := by
  obtain ⟨before, after, split, notBefore, notAfter⟩ := finRange_split b
  refine ⟨before.flatMap t, after.flatMap t, ?_, fun chain => ?_⟩
  · simp [toList, split]
  · simp [toList, split, flatMap_update_of_notMem t b chain _ notBefore,
      flatMap_update_of_notMem t b chain _ notAfter]

theorem toList_append_perm (t : Table s N) (b : Fin s) (n : N) :
    (toList (append t b n)).Perm (n :: toList t) := by
  obtain ⟨before, after, here, there⟩ := toList_update t b
  rw [append, there, here]
  have moved : (before ++ (t b ++ [n]) ++ after).Perm (before ++ t b ++ (n :: after)) := by
    simp
  exact moved.trans List.perm_middle

end Walk

section Keyed
variable {s : Nat} {N K : Type} [DecidableEq K]

def get (hash : K → Fin s) (key : N → K) (t : Table s N) (k : K) : Option N :=
  (t (hash k)).find? fun n => key n = k

def erase (hash : K → Fin s) (key : N → K) (t : Table s N) (k : K) : Table s N :=
  Function.update t (hash k) ((t (hash k)).eraseP fun n => key n = k)

variable {hash : K → Fin s} {key : N → K}

def Placed (hash : K → Fin s) (key : N → K) (t : Table s N) : Prop :=
  ∀ b, ∀ n ∈ t b, hash (key n) = b

omit [DecidableEq K] in
theorem placed_empty : Placed hash key (empty s N) := by
  intro b n member
  simp [empty] at member

omit [DecidableEq K] in
theorem placed_append {t : Table s N} (placed : Placed hash key t) (n : N) :
    Placed hash key (append t (hash (key n)) n) := by
  intro b m member
  by_cases same : b = hash (key n)
  · subst same
    simp only [append, Function.update_self, List.mem_append, List.mem_singleton] at member
    rcases member with old | rfl
    · exact placed _ m old
    · rfl
  · simp only [append, Function.update_of_ne same] at member
    exact placed b m member

theorem mem_erase_of_mem {t : Table s N} {k : K} {b : Fin s} {n : N}
    (member : n ∈ erase hash key t k b) : n ∈ t b := by
  by_cases same : b = hash k
  · subst same
    simp only [erase, Function.update_self] at member
    exact List.mem_of_mem_eraseP member
  · simpa only [erase, Function.update_of_ne same] using member

theorem placed_erase {t : Table s N} (placed : Placed hash key t) (k : K) :
    Placed hash key (erase hash key t k) :=
  fun b n member => placed b n (mem_erase_of_mem member)

theorem get_some {t : Table s N} {k : K} {n : N} (found : get hash key t k = some n) :
    n ∈ toList t ∧ key n = k := by
  have member := List.mem_of_find?_eq_some found
  have matched := List.find?_some found
  exact ⟨(mem_toList t n).mpr ⟨_, member⟩, by simpa using matched⟩

theorem get_none {t : Table s N} (placed : Placed hash key t) {k : K}
    (missing : get hash key t k = none) : ∀ n ∈ toList t, key n ≠ k := by
  intro n member same
  obtain ⟨b, inChain⟩ := (mem_toList t n).mp member
  have bucket := placed b n inChain
  rw [same] at bucket
  subst bucket
  have := List.find?_eq_none.mp missing n inChain
  simp [same] at this

omit [DecidableEq K] in
theorem toList_around {t : Table s N} (placed : Placed hash key t) (k : K) :
    ∃ before after : List N, toList t = before ++ t (hash k) ++ after ∧
      (∀ chain, toList (Function.update t (hash k) chain) = before ++ chain ++ after) ∧
      (∀ n ∈ before, key n ≠ k) ∧ ∀ n ∈ after, key n ≠ k := by
  obtain ⟨before, after, here, there⟩ := toList_update t (hash k)
  have elsewhere : ∀ n, n ∈ before ∨ n ∈ after → key n ≠ k := by
    intro n member same
    have emptied : n ∈ toList (Function.update t (hash k) []) := by
      rw [there]
      simpa using member
    obtain ⟨b, inChain⟩ := (mem_toList _ n).mp emptied
    by_cases bucket : b = hash k
    · subst bucket
      simp at inChain
    · rw [Function.update_of_ne bucket] at inChain
      exact bucket ((placed b n inChain).symm.trans (by rw [same]))
  exact ⟨before, after, here, there, fun n member => elsewhere n (Or.inl member),
    fun n member => elsewhere n (Or.inr member)⟩

theorem toList_erase {t : Table s N} (placed : Placed hash key t) (k : K) :
    toList (erase hash key t k) = (toList t).eraseP fun n => key n = k := by
  obtain ⟨before, after, here, there, notBefore, notAfter⟩ := toList_around placed k
  rw [erase, there, here, List.append_assoc, List.append_assoc,
    List.eraseP_append_right _ (fun n member => by simpa using notBefore n member)]
  by_cases present : ∃ n ∈ t (hash k), key n = k
  · obtain ⟨n, member, same⟩ := present
    rw [List.eraseP_append_left (by simpa using same) _ member]
  · have missing : ∀ n ∈ t (hash k), key n ≠ k := fun n member same =>
      present ⟨n, member, same⟩
    rw [List.eraseP_append_right _ (fun n member => by simpa using missing n member),
      List.eraseP_of_forall_not (fun n member => by simpa using missing n member),
      List.eraseP_of_forall_not (fun n member => by simpa using notAfter n member)]

theorem erase_of_get_none {t : Table s N} {k : K} (missing : get hash key t k = none) :
    erase hash key t k = t := by
  have untouched : (t (hash k)).eraseP (fun n => key n = k) = t (hash k) := by
    refine List.eraseP_of_forall_not fun n member => ?_
    simpa using List.find?_eq_none.mp missing n member
  rw [erase, untouched, Function.update_eq_self]

theorem get_append {t : Table s N} {n : N} (missing : get hash key t (key n) = none) :
    get hash key (append t (hash (key n)) n) (key n) = some n := by
  rw [get] at missing
  rw [get, append, Function.update_self, List.find?_append, missing]
  simp

theorem erase_append {t : Table s N} {n : N} (missing : get hash key t (key n) = none) :
    erase hash key (append t (hash (key n)) n) (key n) = t := by
  rw [erase, append, Function.update_self,
    List.eraseP_append_right _ (List.find?_eq_none.mp missing)]
  simp

/-- Removing a present key takes exactly the node that lookup finds out of the
walk and leaves every other node in its place. -/
theorem erase_spec {t : Table s N} {k : K} {n : N}
    (found : get hash key t k = some n) :
    ∃ before after : List N, toList t = before ++ n :: after ∧
      toList (erase hash key t k) = before ++ after ∧
      erase hash key t k (hash k) = (t (hash k)).eraseP fun m => key m = k := by
  obtain ⟨outer, tail, here, there⟩ := toList_update t (hash k)
  obtain ⟨matched, before, after, split, clean⟩ := List.find?_eq_some_iff_append.mp found
  have removed : (t (hash k)).eraseP (fun m => key m = k) = before ++ after := by
    rw [split, List.eraseP_append_right _ (fun m member => by simpa using clean m member)]
    simp [of_decide_eq_true matched]
  refine ⟨outer ++ before, after ++ tail, ?_, ?_, by simp [erase]⟩
  · rw [here, split]
    simp
  · rw [erase, there, removed]
    simp

theorem toList_erase_perm {t : Table s N} {k : K} {n : N}
    (found : get hash key t k = some n) :
    (toList t).Perm (n :: toList (erase hash key t k)) := by
  obtain ⟨before, after, here, there, _⟩ := erase_spec found
  rw [here, there]
  exact List.perm_middle

theorem erase_map {M : Type} {key : M → K} {f : N → M} {t : Table s N} {u : Table s M}
    (same : ∀ b, (t b).map f = u b) (k : K) (b : Fin s) :
    (erase hash (key ∘ f) t k b).map f = erase hash key u k b := by
  rw [erase, erase]
  by_cases bucket : b = hash k
  · rw [bucket, Function.update_self, Function.update_self, ← same, List.eraseP_map]
    rfl
  · rw [Function.update_of_ne bucket, Function.update_of_ne bucket]
    exact same b

end Keyed

end OaiPmip.ChainTable
