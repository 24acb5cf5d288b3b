import OaiPmip.Lib.ChainTable

/-!
# Nodes in a list and in a chained table

The same nodes are linked in a list, in the order they were made, and in a
chained table, by a key that tells them apart.  Linking a node with a new key,
unlinking one and giving one another key keep the two in step, and unlinking
what was just linked restores both.
-/

set_option autoImplicit false

namespace OaiPmip.ChainTable

variable {s : Nat} {N K : Type} {hash : K → Fin s} {key key' : N → K} {list : List N}
  {table : Table s N}

structure Paired (hash : K → Fin s) (key : N → K) (list : List N) (table : Table s N) : Prop where
  nodup : list.Nodup
  placed : Placed hash key table
  same : (toList table).Perm list
  apart : ∀ p ∈ list, ∀ q ∈ list, key p = key q → p = q

namespace Paired

theorem empty (hash : K → Fin s) (key : N → K) : Paired hash key [] (empty s N) where
  nodup := List.nodup_nil
  placed := placed_empty
  same := by simp
  apart := by simp

theorem mem_iff (paired : Paired hash key list table) {p : N} : p ∈ toList table ↔ p ∈ list :=
  paired.same.mem_iff

theorem congr (paired : Paired hash key list table) (agree : ∀ p ∈ list, key' p = key p) :
    Paired hash key' list table where
  nodup := paired.nodup
  placed := by
    intro b p member
    rw [agree p (paired.mem_iff.mp ((mem_toList table p).mpr ⟨b, member⟩))]
    exact paired.placed b p member
  same := paired.same
  apart := by
    intro p member q member' equal
    rw [agree p member, agree q member'] at equal
    exact paired.apart p member q member' equal

theorem link (paired : Paired hash key list table) {n : N} (new : n ∉ list)
    (fresh : ∀ p ∈ list, key p ≠ key n) :
    Paired hash key (list ++ [n]) (append table (hash (key n)) n) where
  nodup := by
    refine List.nodup_append.mpr ⟨paired.nodup, by simp, ?_⟩
    intro p member q last equal
    rw [List.mem_singleton.mp last] at equal
    exact new (equal ▸ member)
  placed := placed_append paired.placed n
  same := by
    refine (toList_append_perm _ _ _).trans ((paired.same.cons n).trans ?_)
    exact (List.perm_append_singleton n list).symm
  apart := by
    intro p member q member' equal
    rcases List.mem_append.mp member with old | last
    · rcases List.mem_append.mp member' with old' | last'
      · exact paired.apart p old q old' equal
      · rw [List.mem_singleton.mp last'] at equal
        exact absurd equal (fresh p old)
    · rw [List.mem_singleton.mp last] at equal ⊢
      rcases List.mem_append.mp member' with old' | last'
      · exact absurd equal.symm (fresh q old')
      · exact (List.mem_singleton.mp last').symm

variable [DecidableEq K]

theorem get_eq_some (paired : Paired hash key list table) {k : K} {p : N} :
    get hash key table k = some p ↔ p ∈ list ∧ key p = k := by
  constructor
  · intro found
    obtain ⟨member, matched⟩ := get_some found
    exact ⟨paired.mem_iff.mp member, matched⟩
  · intro linked
    obtain ⟨member, matched⟩ := linked
    cases found : get hash key table k with
    | none => exact absurd matched (get_none paired.placed found p (paired.mem_iff.mpr member))
    | some q =>
        obtain ⟨member', matched'⟩ := get_some found
        rw [paired.apart q (paired.mem_iff.mp member') p member (matched'.trans matched.symm)]

theorem get_eq_none (paired : Paired hash key list table) {k : K} :
    get hash key table k = none ↔ ∀ p ∈ list, key p ≠ k := by
  constructor
  · intro missing p member
    exact get_none paired.placed missing p (paired.mem_iff.mpr member)
  · intro absent
    cases found : get hash key table k with
    | none => rfl
    | some p =>
        obtain ⟨member, matched⟩ := paired.get_eq_some.mp found
        exact absurd matched (absent p member)

theorem unlink [DecidableEq N] (paired : Paired hash key list table) {n : N} (linked : n ∈ list) :
    Paired hash key (list.filter fun p => p ≠ n) (erase hash key table (key n)) where
  nodup := paired.nodup.filter _
  placed := placed_erase paired.placed _
  same := by
    have found := paired.get_eq_some.mpr ⟨linked, rfl⟩
    have moved := (toList_erase_perm found).symm.trans paired.same
    have erased := moved.trans (List.perm_cons_erase linked)
    rw [List.perm_cons, paired.nodup.erase_eq_filter] at erased
    refine erased.trans (List.Perm.of_eq (List.filter_congr fun p _ => ?_))
    by_cases equal : p = n
    · simp [equal]
    · simp [equal]
  apart := by
    intro p member q member' equal
    exact paired.apart p (List.mem_of_mem_filter member) q (List.mem_of_mem_filter member') equal

omit [DecidableEq K] in
theorem filter_link [DecidableEq N] {n : N} (new : n ∉ list) :
    (list ++ [n]).filter (fun p => p ≠ n) = list := by
  have kept : list.filter (fun p => p ≠ n) = list := by
    refine List.filter_eq_self.mpr fun p member => ?_
    have other : p ≠ n := fun equal => new (equal ▸ member)
    simpa using other
  rw [List.filter_append, kept]
  simp

theorem erase_link (paired : Paired hash key list table) {n : N}
    (fresh : ∀ p ∈ list, key p ≠ key n) :
    erase hash key (append table (hash (key n)) n) (key n) = table :=
  erase_append (paired.get_eq_none.mpr fresh)

/-- Giving a linked node a key that no other node has: it is taken out of the
chain of the old key and put at the end of that of the new one. -/
theorem rekey [DecidableEq N] (paired : Paired hash key list table) {n : N} (linked : n ∈ list)
    (others : ∀ p ∈ list, p ≠ n → key' p = key p) (fresh : ∀ p ∈ list, p ≠ n → key p ≠ key' n) :
    Paired hash key' list (append (erase hash key table (key n)) (hash (key' n)) n) := by
  have without : ∀ p ∈ list.filter (fun p => p ≠ n), p ∈ list ∧ p ≠ n := by
    intro p member
    obtain ⟨inList, other⟩ := List.mem_filter.mp member
    exact ⟨inList, of_decide_eq_true other⟩
  have unlinked := (paired.unlink linked).congr fun p member =>
    others p (without p member).1 (without p member).2
  have relinked := unlinked.link (fun member => (without n member).2 rfl) fun p member => by
    rw [others p (without p member).1 (without p member).2]
    exact fresh p (without p member).1 (without p member).2
  refine ⟨paired.nodup, relinked.placed, relinked.same.trans ?_, ?_⟩
  · refine (List.perm_append_singleton n _).trans ?_
    have split := (List.perm_cons_erase linked).symm
    rw [paired.nodup.erase_eq_filter] at split
    have filtered : (list.filter fun p => p != n) = list.filter fun p => p ≠ n := by
      refine List.filter_congr fun p _ => ?_
      by_cases equal : p = n
      · simp [equal]
      · simp [equal]
    rw [← filtered]
    exact split
  · intro p member q member' equal
    by_cases isFirst : p = n
    · by_cases isSecond : q = n
      · rw [isFirst, isSecond]
      · rw [isFirst, others q member' isSecond] at equal
        exact absurd equal.symm (fresh q member' isSecond)
    · by_cases isSecond : q = n
      · rw [isSecond, others p member isFirst] at equal
        exact absurd equal (fresh p member isFirst)
      · rw [others p member isFirst, others q member' isSecond] at equal
        exact paired.apart p member q member' equal

end Paired

end OaiPmip.ChainTable
