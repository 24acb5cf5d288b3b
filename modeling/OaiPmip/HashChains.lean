import OaiPmip.Types
import OaiPmip.Lib.ChainTable

/-!
# The linked hash tables of pmip_hash.c, hash.c and fmpmip_flowmob_hash.c

The three files hold the same table three times, with different keys and hash
functions: an array of singly linked chains of heap nodes.  The code is modelled
over an explicit node memory, so that the link that a removal rewrites and the
node that a walk still points to are visible; every read of a released node and
every walk longer than the memory makes the operation fail.

A node stores pointers into its data, so its key is whatever the data holds
when it is compared: `keyOf` is that view of the data.
-/

set_option autoImplicit false

namespace OaiPmip.HashChains

open OaiPmip.ChainTable

abbrev Ptr := Nat

/-- `struct hash_entry`.  The key pointers point into `data`. -/
structure HashEntry (D : Type) where
  next : Option Ptr
  data : D

/-- `struct pmip_hash` with the heap its nodes live in; `top` is the address of
the next allocation. -/
structure Hash (s : Nat) (D : Type) where
  mem : Ptr → Option (HashEntry D)
  top : Ptr
  hashBuckets : Fin s → Option Ptr

def eexist : Int := -17

def enomem : Int := -12

section Code
variable {s : Nat} {D K : Type} [DecidableEq K] (calcHash : K → Fin s) (keyOf : D → K)

def hashInit (s : Nat) (D : Type) : Hash s D where
  mem := fun _ => none
  top := 0
  hashBuckets := fun _ => none

/-- `while (hptr) { if (match(hptr, ...)) return hptr->data; hptr = hptr->next; }` -/
def getLoop (mem : Ptr → Option (HashEntry D)) (k : K) :
    Nat → Option Ptr → Option (Option D)
  | _, none => some none
  | 0, some _ => none
  | fuel + 1, some hptr => do
      let node ← mem hptr
      if keyOf node.data = k then some (some node.data)
      else getLoop mem k fuel node.next

def chainGet (h : Hash s D) (k : K) : Option (Option D) :=
  getLoop keyOf h.mem k h.top (h.hashBuckets (calcHash k))

def chainData (mem : Ptr → Option (HashEntry D)) : Nat → Option Ptr → List D
  | _, none => []
  | 0, some _ => []
  | fuel + 1, some hptr =>
      match mem hptr with
      | none => []
      | some node => node.data :: chainData mem fuel node.next

def contents (h : Hash s D) : Table s D := fun b => chainData h.mem h.top (h.hashBuckets b)

/-- The walk of the add functions, `while (hptr->next)`: it compares a node only
when the node has a successor.  The result is the node to link behind, or
`none` when a compared node has the key. -/
def addLoop (mem : Ptr → Option (HashEntry D)) (k : K) :
    Nat → Ptr → Option (Option Ptr)
  | 0, _ => none
  | fuel + 1, hptr => do
      let node ← mem hptr
      match node.next with
      | none => some (some hptr)
      | some following =>
          if keyOf node.data = k then some none
          else addLoop mem k fuel following

def setNext (mem : Ptr → Option (HashEntry D)) (p : Ptr) (next : Option Ptr) :
    Ptr → Option (HashEntry D) :=
  Function.update mem p ((mem p).map fun node => { node with next := next })

def chainAdd (h : Hash s D) (data : D) (mallocOk : Bool) : Option (Hash s D × Int) :=
  if mallocOk then
    let fresh := h.top
    let k := keyOf data
    let hashInd := calcHash k
    let mem := Function.update h.mem fresh (some ⟨none, data⟩)
    match h.hashBuckets hashInd with
    | some hptr => do
        match ← addLoop keyOf mem k (fresh + 1) hptr with
        | none =>
            some (⟨Function.update mem fresh none, fresh + 1, h.hashBuckets⟩, eexist)
        | some last => some (⟨setNext mem last (some fresh), fresh + 1, h.hashBuckets⟩, 0)
    | none =>
        some (⟨mem, fresh + 1, Function.update h.hashBuckets hashInd (some fresh)⟩, 0)
  else some (h, enomem)

/-- What an addition does to the chains: `chainAdd` without the links. -/
def tableAdd {N : Type} (calcHash : K → Fin s) (key : N → K) (chains : Table s N) (n : N)
    (mallocOk : Bool) : Table s N × Int :=
  if mallocOk then
    if key n ∈ (chains (calcHash (key n))).dropLast.map key then (chains, eexist)
    else (append chains (calcHash (key n)) n, 0)
  else (chains, enomem)

/-- The walk does not ask the last node, which is no matter for a new key. -/
theorem tableAdd_new {N : Type} {calcHash : K → Fin s} {key : N → K} {chains : Table s N} {n : N}
    (new : key n ∉ (toList chains).map key) :
    tableAdd calcHash key chains n true = (append chains (calcHash (key n)) n, 0) := by
  have absent : key n ∉ (chains (calcHash (key n))).dropLast.map key := by
    intro member
    obtain ⟨p, inChain, same⟩ := List.mem_map.mp member
    have walked := (mem_toList chains p).mpr ⟨_, (List.dropLast_sublist _).subset inChain⟩
    exact new (List.mem_map.mpr ⟨p, walked, same⟩)
  simp only [tableAdd, if_true]
  exact if_neg absent

theorem tableAdd_map {N M : Type} {calcHash : K → Fin s} {key : M → K} {f : N → M}
    {chains : Table s N} {table : Table s M} (same : ∀ b, (chains b).map f = table b) (n : N)
    (mallocOk : Bool) (b : Fin s) :
    ((tableAdd calcHash (key ∘ f) chains n mallocOk).1 b).map f =
      (tableAdd calcHash key table (f n) mallocOk).1 b := by
  cases mallocOk with
  | false => exact same b
  | true =>
      have compared : (chains (calcHash (key (f n)))).dropLast.map (key ∘ f) =
          (table (calcHash (key (f n)))).dropLast.map key := by
        rw [← same, ← List.map_dropLast, List.map_map]
      simp only [tableAdd, if_true, Function.comp_apply, compared]
      split
      · exact same b
      · simp only [append]
        by_cases bucket : b = calcHash (key (f n))
        · rw [bucket, Function.update_self, Function.update_self, ← same, List.map_append]
          rfl
        · rw [Function.update_of_ne bucket, Function.update_of_ne bucket]
          exact same b

/-- The removal walk with its `pptr`, `hptr` and `head`. -/
def deleteLoop (h : Hash s D) (hashInd : Fin s) (k : K) (head : Option Ptr) :
    Nat → Option Ptr → Option Ptr → Option (Hash s D)
  | _, _, none => some h
  | 0, _, some _ => none
  | fuel + 1, pptr, some hptr => do
      let node ← h.mem hptr
      if keyOf node.data = k then
        if some hptr ≠ head then
          match pptr with
          | none => none
          | some previous =>
              some { h with
                mem := Function.update (setNext h.mem previous node.next) hptr none }
        else
          some { h with
            mem := Function.update h.mem hptr none
            hashBuckets := Function.update h.hashBuckets hashInd node.next }
      else deleteLoop h hashInd k head fuel (some hptr) node.next

def chainDelete (h : Hash s D) (k : K) : Option (Hash s D) :=
  let head := h.hashBuckets (calcHash k)
  deleteLoop keyOf h (calcHash k) k head h.top head head

/-- One chain of the iteration: `nptr` is read before the callback runs. -/
def iterateChain {σ : Type}
    (func : Hash s D × σ → D → Option ((Hash s D × σ) × Int)) :
    Nat → Option Ptr → Hash s D × σ → Option ((Hash s D × σ) × Int)
  | _, none, state => some (state, 0)
  | 0, some _, _ => none
  | fuel + 1, some hptr, state => do
      let node ← state.1.mem hptr
      let (state, err) ← func state node.data
      if err ≠ 0 then some (state, err)
      else iterateChain func fuel node.next state

def iterateBuckets {σ : Type}
    (func : Hash s D × σ → D → Option ((Hash s D × σ) × Int)) :
    List (Fin s) → Hash s D × σ → Option ((Hash s D × σ) × Int)
  | [], state => some (state, 0)
  | i :: rest, state => do
      let (state, err) ← iterateChain func state.1.top (state.1.hashBuckets i) state
      if err ≠ 0 then some (state, err) else iterateBuckets func rest state

def chainIterate {σ : Type}
    (func : Hash s D × σ → D → Option ((Hash s D × σ) × Int))
    (state : Hash s D × σ) : Option ((Hash s D × σ) × Int) :=
  iterateBuckets func (List.finRange s) state

end Code

/-! ## What the memory represents

`Represents h chains` says which nodes hang off each bucket, in link order.
Every operation below is shown to do to these lists what it is meant to do. -/

section Represent
variable {s : Nat} {D : Type}

def headPtr (chain : List (Ptr × D)) : Option Ptr := chain.head?.map Prod.fst

def Linked (mem : Ptr → Option (HashEntry D)) : List (Ptr × D) → Prop
  | [] => True
  | (p, d) :: rest => mem p = some ⟨headPtr rest, d⟩ ∧ Linked mem rest

structure Represents (h : Hash s D) (chains : Table s (Ptr × D)) : Prop where
  linked : ∀ b, Linked h.mem (chains b)
  heads : ∀ b, h.hashBuckets b = headPtr (chains b)
  distinct : ((toList chains).map Prod.fst).Nodup
  below : ∀ p d, (p, d) ∈ toList chains → p < h.top
  fresh : ∀ p, h.top ≤ p → h.mem p = none

theorem represents_hashInit : Represents (hashInit s D) (ChainTable.empty s (Ptr × D)) where
  linked := fun _ => trivial
  heads := fun _ => rfl
  distinct := by simp
  below := by simp
  fresh := fun _ _ => rfl

theorem linked_congr {mem mem' : Ptr → Option (HashEntry D)} {chain : List (Ptr × D)}
    (agree : ∀ p ∈ chain.map Prod.fst, mem' p = mem p) (linked : Linked mem chain) :
    Linked mem' chain := by
  induction chain with
  | nil => trivial
  | cons node rest ih =>
      obtain ⟨p, d⟩ := node
      refine ⟨?_, ih (fun q member => agree q (by simp [member])) linked.2⟩
      rw [agree p (by simp)]
      exact linked.1

theorem linked_append_right {mem : Ptr → Option (HashEntry D)} :
    ∀ {first second : List (Ptr × D)}, Linked mem (first ++ second) → Linked mem second
  | [], _, linked => linked
  | (_, _) :: _, _, linked => linked_append_right linked.2

theorem chain_ptrs_nodup {h : Hash s D} {chains : Table s (Ptr × D)}
    (rep : Represents h chains) (b : Fin s) : ((chains b).map Prod.fst).Nodup := by
  obtain ⟨before, after, here, _⟩ := toList_update chains b
  have all := rep.distinct
  rw [here, List.map_append, List.map_append] at all
  exact (List.nodup_append.mp (List.nodup_append.mp all).1).2.1

theorem chain_below {h : Hash s D} {chains : Table s (Ptr × D)}
    (rep : Represents h chains) (b : Fin s) : ∀ p ∈ (chains b).map Prod.fst, p < h.top := by
  intro p member
  obtain ⟨⟨q, d⟩, inChain, rfl⟩ := List.mem_map.mp member
  exact rep.below q d ((mem_toList chains (q, d)).mpr ⟨b, inChain⟩)

/-- A chain is no longer than the heap, so the walks never run out of fuel. -/
theorem chain_length_le {h : Hash s D} {chains : Table s (Ptr × D)}
    (rep : Represents h chains) (b : Fin s) : (chains b).length ≤ h.top := by
  have inside : (chains b).map Prod.fst ⊆ List.range h.top := fun p member =>
    List.mem_range.mpr (chain_below rep b p member)
  have short := (List.subperm_of_subset (chain_ptrs_nodup rep b) inside).length_le
  simpa using short

theorem ptr_bucket_unique {h : Hash s D} {chains : Table s (Ptr × D)}
    (rep : Represents h chains) {b c : Fin s} {p : Ptr}
    (inFirst : p ∈ (chains b).map Prod.fst) (inSecond : p ∈ (chains c).map Prod.fst) :
    b = c := by
  by_contra different
  obtain ⟨before, after, here, there⟩ := toList_update chains b
  have all := rep.distinct
  have emptied : p ∈ ((toList (Function.update chains b [])).map Prod.fst) := by
    obtain ⟨node, member, first⟩ := List.mem_map.mp inSecond
    refine List.mem_map.mpr ⟨node, (mem_toList _ node).mpr ⟨c, ?_⟩, first⟩
    rwa [Function.update_of_ne (Ne.symm different)]
  rw [there] at emptied
  rw [here] at all
  simp only [List.map_append, List.nodup_append, List.mem_append] at all emptied
  simp only [List.map_nil, List.not_mem_nil, or_false] at emptied
  rcases emptied with inBefore | inAfter
  · exact all.1.2.2 p inBefore p inFirst rfl
  · exact all.2.2 p (Or.inr inFirst) p inAfter rfl

theorem chainData_spec {mem : Ptr → Option (HashEntry D)} :
    ∀ {chain : List (Ptr × D)} {fuel : Nat}, Linked mem chain → chain.length ≤ fuel →
      chainData mem fuel (headPtr chain) = chain.map Prod.snd
  | [], fuel, _, _ => by cases fuel <;> rfl
  | (p, d) :: rest, 0, _, enough => by simp at enough
  | (p, d) :: rest, fuel + 1, linked, enough => by
      have later := chainData_spec linked.2 (Nat.le_of_succ_le_succ enough)
      have here : headPtr ((p, d) :: rest) = some p := rfl
      simp [here, chainData, linked.1, later]

theorem contents_spec {h : Hash s D} {chains : Table s (Ptr × D)}
    (rep : Represents h chains) (b : Fin s) : contents h b = (chains b).map Prod.snd := by
  rw [contents, rep.heads]
  exact chainData_spec (rep.linked b) (chain_length_le rep b)

theorem toList_contents {h : Hash s D} {chains : Table s (Ptr × D)}
    (rep : Represents h chains) : toList (contents h) = (toList chains).map Prod.snd := by
  rw [toList, toList, List.map_flatMap]
  exact List.flatMap_congr fun b _ => contents_spec rep b

theorem linked_relink {mem mem' : Ptr → Option (HashEntry D)} {q : Ptr} {d : D}
    {old new : List (Ptr × D)} (here : mem' q = some ⟨headPtr new, d⟩)
    (tail : Linked mem' new) :
    ∀ {front : List (Ptr × D)}, Linked mem (front ++ (q, d) :: old) →
      (∀ p ∈ front.map Prod.fst, mem' p = mem p) → Linked mem' (front ++ (q, d) :: new)
  | [], _, _ => ⟨here, tail⟩
  | (p, e) :: rest, linked, agree => by
      have heads : headPtr (rest ++ (q, d) :: new) = headPtr (rest ++ (q, d) :: old) := by
        cases rest with
        | nil => rfl
        | cons node more => rfl
      refine ⟨?_, linked_relink here tail linked.2 fun p' member => agree p' (by simp [member])⟩
      show mem' p = some ⟨headPtr (rest ++ (q, d) :: new), e⟩
      rw [heads, agree p (by simp)]
      exact linked.1

@[simp] theorem setNext_of_ne {mem : Ptr → Option (HashEntry D)} {p q : Ptr}
    (different : q ≠ p) (next : Option Ptr) : setNext mem p next q = mem q :=
  Function.update_of_ne different _ _

theorem setNext_self {mem : Ptr → Option (HashEntry D)} {p : Ptr} {node : HashEntry D}
    (here : mem p = some node) (next : Option Ptr) :
    setNext mem p next p = some ⟨next, node.data⟩ := by
  simp [setNext, here]

/-- An operation that changes one bucket, and memory only at nodes of that
bucket or at unused addresses. -/
theorem represents_update {h h' : Hash s D} {chains : Table s (Ptr × D)} {b : Fin s}
    {chain : List (Ptr × D)} (rep : Represents h chains)
    (linked : Linked h'.mem chain)
    (others : ∀ p, p < h.top → p ∉ (chains b).map Prod.fst → h'.mem p = h.mem p)
    (buckets : h'.hashBuckets = Function.update h.hashBuckets b (headPtr chain))
    (distinct : ((toList (Function.update chains b chain)).map Prod.fst).Nodup)
    (grown : h.top ≤ h'.top) (below : ∀ p d, (p, d) ∈ chain → p < h'.top)
    (fresh : ∀ p, h'.top ≤ p → h'.mem p = none) :
    Represents h' (Function.update chains b chain) where
  linked := by
    intro c
    by_cases same : c = b
    · subst same
      rwa [Function.update_self]
    · rw [Function.update_of_ne same]
      refine linked_congr (fun p member => ?_) (rep.linked c)
      refine others p (chain_below rep c p member) fun inBucket => ?_
      exact same (ptr_bucket_unique rep member inBucket)
  heads := by
    intro c
    rw [buckets]
    by_cases same : c = b
    · subst same
      simp
    · simp [Function.update_of_ne same, rep.heads c]
  distinct := distinct
  below := by
    intro p d member
    obtain ⟨c, inChain⟩ := (mem_toList _ _).mp member
    by_cases same : c = b
    · subst same
      rw [Function.update_self] at inChain
      exact below p d inChain
    · rw [Function.update_of_ne same] at inChain
      exact lt_of_lt_of_le (rep.below p d ((mem_toList _ _).mpr ⟨c, inChain⟩)) grown
  fresh := fresh

end Represent

section Spec
variable {s : Nat} {D K : Type} [DecidableEq K] {calcHash : K → Fin s} {keyOf : D → K}

def nodeKey (keyOf : D → K) (node : Ptr × D) : K := keyOf node.2

theorem getLoop_spec {mem : Ptr → Option (HashEntry D)} (k : K) :
    ∀ {chain : List (Ptr × D)} {fuel : Nat}, Linked mem chain → chain.length ≤ fuel →
      getLoop keyOf mem k fuel (headPtr chain) =
        some ((chain.find? fun node => nodeKey keyOf node = k).map Prod.snd)
  | [], _, _, _ => by simp [headPtr, getLoop]
  | (p, d) :: rest, 0, _, enough => by simp at enough
  | (p, d) :: rest, fuel + 1, linked, enough => by
      have later := getLoop_spec k linked.2 (Nat.le_of_succ_le_succ enough)
      by_cases same : keyOf d = k
      · simp [headPtr, getLoop, linked.1, nodeKey, same]
      · simpa [headPtr, getLoop, linked.1, nodeKey, same] using later

theorem chainGet_spec (calcHash : K → Fin s) (keyOf : D → K)
    {h : Hash s D} {chains : Table s (Ptr × D)}
    (rep : Represents h chains) (k : K) :
    chainGet calcHash keyOf h k =
      some ((get calcHash (nodeKey keyOf) chains k).map Prod.snd) := by
  rw [chainGet, rep.heads]
  exact getLoop_spec k (rep.linked _) (chain_length_le rep _)

/-- The keys that the walk of the add functions compares: those of all nodes
but the last. -/
def compared (keyOf : D → K) (chain : List (Ptr × D)) : List K :=
  chain.dropLast.map (nodeKey keyOf)

theorem addLoop_spec {mem : Ptr → Option (HashEntry D)} (k : K) :
    ∀ {p : Ptr} {d : D} {rest : List (Ptr × D)} {fuel : Nat},
      Linked mem ((p, d) :: rest) → rest.length < fuel →
      addLoop keyOf mem k fuel p =
        some (if k ∈ compared keyOf ((p, d) :: rest) then none
          else (((p, d) :: rest).getLast?.map Prod.fst))
  | p, d, rest, 0, _, enough => by simp at enough
  | p, d, [], fuel + 1, linked, _ => by
      have node := linked.1
      simp [addLoop, node, headPtr, compared]
  | p, d, (q, e) :: rest, fuel + 1, linked, enough => by
      have later : addLoop keyOf mem k fuel q = _ :=
        addLoop_spec k linked.2 (by simpa using enough)
      have node : mem p = some ⟨some q, d⟩ := linked.1
      by_cases same : keyOf d = k
      · simp [addLoop, node, compared, nodeKey, same]
      · have other : k ≠ keyOf d := Ne.symm same
        simp only [addLoop, node, Option.bind_eq_bind, Option.bind_some, same, if_false, later]
        simp [compared, nodeKey, other]

theorem append_distinct {h : Hash s D} {chains : Table s (Ptr × D)}
    (rep : Represents h chains) (b : Fin s) (data : D) :
    ((toList (append chains b (h.top, data))).map Prod.fst).Nodup := by
  refine ((toList_append_perm chains b (h.top, data)).map Prod.fst).nodup_iff.mpr ?_
  rw [List.map_cons, List.nodup_cons]
  refine ⟨fun member => ?_, rep.distinct⟩
  obtain ⟨⟨q, d⟩, inTable, same⟩ := List.mem_map.mp member
  exact absurd (rep.below q d inTable) (Nat.not_lt.mpr (Nat.le_of_eq (Eq.symm same)))

omit [DecidableEq K] in
theorem represents_alloc {h : Hash s D} {chains : Table s (Ptr × D)}
    (rep : Represents h chains) (node : Option (HashEntry D)) :
    Represents ⟨Function.update h.mem h.top node, h.top + 1, h.hashBuckets⟩ chains where
  linked := fun b => linked_congr
    (fun p member => Function.update_of_ne (Nat.ne_of_lt (chain_below rep b p member)) _ _)
    (rep.linked b)
  heads := rep.heads
  distinct := rep.distinct
  below := fun p d member => Nat.lt_succ_of_lt (rep.below p d member)
  fresh := fun p above => by
    show Function.update h.mem h.top node p = none
    rw [Function.update_of_ne (Nat.ne_of_gt (Nat.lt_of_succ_le above))]
    exact rep.fresh p (Nat.le_of_succ_le above)

omit [DecidableEq K] in
theorem represents_link {h : Hash s D} {chains : Table s (Ptr × D)}
    (rep : Represents h chains) {b : Fin s} {front : List (Ptr × D)} {last : Ptr}
    {lastData : D} (split : chains b = front ++ [(last, lastData)]) (data : D) :
    Represents
      ⟨setNext (Function.update h.mem h.top (some ⟨none, data⟩)) last (some h.top),
        h.top + 1, h.hashBuckets⟩ (append chains b (h.top, data)) := by
  have ptrs := chain_ptrs_nodup rep b
  have lastBelow : last < h.top := chain_below rep b last (by simp [split])
  have frontBelow : ∀ p ∈ front.map Prod.fst, p < h.top := fun p member =>
    chain_below rep b p (by rw [split, List.map_append]; exact List.mem_append_left _ member)
  have frontNotLast : ∀ p ∈ front.map Prod.fst, p ≠ last := by
    intro p member same
    rw [split, List.map_append, List.nodup_append] at ptrs
    exact ptrs.2.2 p member last (by simp) same
  have chainLinked := rep.linked b
  rw [split] at chainLinked
  have lastNode : h.mem last = some ⟨none, lastData⟩ := (linked_append_right chainLinked).1
  have distinct := append_distinct rep b data
  rw [append, split, List.append_assoc] at distinct ⊢
  refine represents_update rep ?_ ?_ ?_ distinct (Nat.le_succ _) ?_ ?_
  · refine linked_relink ?_ ?_ chainLinked ?_
    · have kept : Function.update h.mem h.top (some ⟨none, data⟩) last =
          some ⟨none, lastData⟩ := by
        rw [Function.update_of_ne (Nat.ne_of_lt lastBelow), lastNode]
      exact setNext_self kept _
    · refine ⟨?_, trivial⟩
      show setNext _ last _ h.top = _
      rw [setNext_of_ne (Nat.ne_of_gt lastBelow), Function.update_self]
      rfl
    · intro p member
      show setNext _ last _ p = _
      rw [setNext_of_ne (frontNotLast p member),
        Function.update_of_ne (Nat.ne_of_lt (frontBelow p member))]
  · intro p below outside
    have notLast : p ≠ last := fun same => outside (by simp [split, same])
    show setNext _ last _ p = _
    rw [setNext_of_ne notLast, Function.update_of_ne (Nat.ne_of_lt below)]
  · have sameHead : headPtr (front ++ ([(last, lastData)] ++ [(h.top, data)])) =
        h.hashBuckets b := by
      rw [rep.heads b, split]
      cases front <;> rfl
    rw [sameHead, Function.update_eq_self]
  · intro p d member
    rcases List.mem_append.mp member with inFront | atEnd
    · exact Nat.lt_succ_of_lt (frontBelow p (List.mem_map.mpr ⟨_, inFront, rfl⟩))
    · simp only [List.cons_append, List.nil_append, List.mem_cons, Prod.mk.injEq,
        List.not_mem_nil, or_false] at atEnd
      rcases atEnd with ⟨rfl, _⟩ | ⟨rfl, _⟩
      · exact Nat.lt_succ_of_lt lastBelow
      · exact Nat.lt_succ_self _
  · intro p above
    have notTop : p ≠ h.top := Nat.ne_of_gt (Nat.lt_of_succ_le above)
    have notLast : p ≠ last :=
      Nat.ne_of_gt (lt_of_lt_of_le lastBelow (Nat.le_of_succ_le above))
    show setNext _ last _ p = none
    rw [setNext_of_ne notLast, Function.update_of_ne notTop]
    exact rep.fresh p (Nat.le_of_succ_le above)

omit [DecidableEq K] in
theorem represents_first {h : Hash s D} {chains : Table s (Ptr × D)}
    (rep : Represents h chains) {b : Fin s} (emptyChain : chains b = []) (data : D) :
    Represents
      ⟨Function.update h.mem h.top (some ⟨none, data⟩), h.top + 1,
        Function.update h.hashBuckets b (some h.top)⟩ (append chains b (h.top, data)) := by
  have distinct := append_distinct rep b data
  rw [append, emptyChain, List.nil_append] at distinct ⊢
  refine represents_update rep ⟨by simp [headPtr], trivial⟩ ?_ rfl distinct (Nat.le_succ _) ?_ ?_
  · exact fun p below _ => Function.update_of_ne (Nat.ne_of_lt below) _ _
  · intro p d member
    simp only [List.mem_singleton, Prod.mk.injEq] at member
    exact member.1 ▸ Nat.lt_succ_self _
  · exact (represents_alloc rep _).fresh

/-- The add functions refuse a key exactly when a compared node has it;
otherwise the data becomes the last node of its chain. -/
theorem chainAdd_spec (calcHash : K → Fin s) (keyOf : D → K)
    {h : Hash s D} {chains : Table s (Ptr × D)}
    (rep : Represents h chains) (data : D) :
    (keyOf data ∈ compared keyOf (chains (calcHash (keyOf data))) ∧
      ∃ h', chainAdd calcHash keyOf h data true = some (h', eexist) ∧
        Represents h' chains) ∨
    (keyOf data ∉ compared keyOf (chains (calcHash (keyOf data))) ∧
      ∃ h', chainAdd calcHash keyOf h data true = some (h', 0) ∧
        Represents h' (append chains (calcHash (keyOf data)) (h.top, data))) := by
  set b := calcHash (keyOf data) with bucket
  have head : h.hashBuckets b = headPtr (chains b) := rep.heads b
  have allocated := represents_alloc rep (some ⟨none, data⟩)
  cases chain : chains b with
  | nil =>
      refine Or.inr ⟨by simp [compared], _, ?_, represents_first rep chain data⟩
      simp only [chainAdd, if_true, ← bucket, head, chain, headPtr]
      rfl
  | cons first rest =>
      obtain ⟨p, d⟩ := first
      have linked := allocated.linked b
      have short := chain_length_le allocated b
      rw [chain] at linked short
      have walk : addLoop keyOf _ (keyOf data) (h.top + 1) p = _ :=
        addLoop_spec (keyOf data) linked short
      by_cases refused : keyOf data ∈ compared keyOf ((p, d) :: rest)
      · refine Or.inl ⟨refused, _, ?_, represents_alloc rep none⟩
        simp [chainAdd, ← bucket, head, chain, headPtr, walk, refused]
      · rcases List.eq_nil_or_concat' ((p, d) :: rest) with impossible | ⟨front, ⟨last, e⟩, split⟩
        · simp at impossible
        · refine Or.inr ⟨refused, _, ?_, represents_link rep (chain.trans split) data⟩
          have lastNode : ((p, d) :: rest).getLast? = some (last, e) := by simp [split]
          simp [chainAdd, ← bucket, head, chain, headPtr, walk, refused, lastNode]

/-- The linked addition does to the memory what `tableAdd` does to the chains. -/
theorem chainAdd_tableAdd (calcHash : K → Fin s) (keyOf : D → K) {h : Hash s D}
    {chains : Table s (Ptr × D)} (rep : Represents h chains) (data : D) (mallocOk : Bool) :
    ∃ h', chainAdd calcHash keyOf h data mallocOk =
        some (h', (tableAdd calcHash (nodeKey keyOf) chains (h.top, data) mallocOk).2) ∧
      Represents h' (tableAdd calcHash (nodeKey keyOf) chains (h.top, data) mallocOk).1 := by
  cases mallocOk with
  | false => exact ⟨h, by simp [chainAdd, tableAdd], by simpa [tableAdd] using rep⟩
  | true =>
      rcases chainAdd_spec calcHash keyOf rep data with
        ⟨refused, h', added, rep'⟩ | ⟨accepted, h', added, rep'⟩
      · have result : tableAdd calcHash (nodeKey keyOf) chains (h.top, data) true =
            (chains, eexist) := if_pos refused
        exact ⟨h', by rw [result, added], by rwa [result]⟩
      · have result : tableAdd calcHash (nodeKey keyOf) chains (h.top, data) true =
            (append chains (calcHash (keyOf data)) (h.top, data), 0) := if_neg accepted
        exact ⟨h', by rw [result, added], by rwa [result]⟩

theorem eraseP_split {chain front rest : List (Ptr × D)} {p : Ptr} {d : D} {k : K}
    (split : chain = front ++ (p, d) :: rest) (clean : ∀ node ∈ front, nodeKey keyOf node ≠ k)
    (same : keyOf d = k) :
    chain.eraseP (fun node => nodeKey keyOf node = k) = front ++ rest := by
  rw [split, List.eraseP_append_right _ (fun node member => by simpa using clean node member)]
  simp [nodeKey, same]

omit [DecidableEq K] in
theorem represents_unlink {h : Hash s D} {chains : Table s (Ptr × D)}
    (rep : Represents h chains) {b : Fin s} {front rest : List (Ptr × D)} {p : Ptr} {d : D}
    (split : chains b = front ++ (p, d) :: rest) {mem : Ptr → Option (HashEntry D)}
    (linked : Linked mem (front ++ rest))
    (others : ∀ q, q ∉ (chains b).map Prod.fst → mem q = h.mem q) :
    Represents ⟨mem, h.top, Function.update h.hashBuckets b (headPtr (front ++ rest))⟩
      (Function.update chains b (front ++ rest)) := by
  have shorter : (front ++ rest).Sublist (chains b) := by
    rw [split]
    exact List.Sublist.append_left (List.sublist_cons_self _ _) _
  refine represents_update rep linked (fun q _ => others q) rfl ?_ le_rfl ?_ ?_
  · obtain ⟨before, after, here, there⟩ := toList_update chains b
    have all := rep.distinct
    rw [here] at all
    rw [there]
    refine List.Nodup.sublist (List.Sublist.map _ ?_) all
    exact (List.Sublist.append_left shorter _).append_right _
  · intro q e member
    exact chain_below rep b q (List.mem_map.mpr ⟨_, shorter.subset member, rfl⟩)
  · intro q above
    refine (others q fun member => ?_).trans (rep.fresh q above)
    exact absurd (chain_below rep b q member) (Nat.not_lt.mpr above)

omit [DecidableEq K] in
theorem represents_unlink_head {h : Hash s D} {chains : Table s (Ptr × D)}
    (rep : Represents h chains) {b : Fin s} {rest : List (Ptr × D)} {p : Ptr} {d : D}
    (split : chains b = (p, d) :: rest) :
    Represents
      { h with
        mem := Function.update h.mem p none
        hashBuckets := Function.update h.hashBuckets b (headPtr rest) }
      (Function.update chains b rest) := by
  have ptrs := chain_ptrs_nodup rep b
  have linked := rep.linked b
  rw [split] at ptrs linked
  have atFront : chains b = [] ++ (p, d) :: rest := split
  refine represents_unlink rep atFront ?_ ?_
  · refine linked_congr (fun q member => ?_) linked.2
    have notHead : q ≠ p := by
      intro same
      subst same
      exact (List.nodup_cons.mp ptrs).1 member
    exact Function.update_of_ne notHead _ _
  · intro q outside
    exact Function.update_of_ne (fun same => outside (by simp [split, same])) _ _

omit [DecidableEq K] in
theorem represents_unlink_behind {h : Hash s D} {chains : Table s (Ptr × D)}
    (rep : Represents h chains) {b : Fin s} {front rest : List (Ptr × D)} {p q : Ptr} {d e : D}
    (split : chains b = front ++ (q, e) :: (p, d) :: rest) :
    Represents
      { h with mem := Function.update (setNext h.mem q (headPtr rest)) p none }
      (Function.update chains b (front ++ (q, e) :: rest)) := by
  have ptrs := chain_ptrs_nodup rep b
  have linked := rep.linked b
  rw [split] at ptrs linked
  have behind := linked_append_right linked
  simp only [List.map_append, List.map_cons, List.nodup_append, List.nodup_cons,
    List.mem_cons, not_or] at ptrs
  obtain ⟨_, ⟨⟨qNotP, qNotRest⟩, pNotRest, _⟩, apart⟩ := ptrs
  have sameHead : Function.update h.hashBuckets b
      (headPtr ((front ++ [(q, e)]) ++ rest)) = h.hashBuckets := by
    have unchanged : headPtr ((front ++ [(q, e)]) ++ rest) = h.hashBuckets b := by
      rw [rep.heads b, split]
      cases front <;> rfl
    rw [unchanged, Function.update_eq_self]
  have splitBehind : chains b = (front ++ [(q, e)]) ++ (p, d) :: rest := by simp [split]
  set mem := Function.update (setNext h.mem q (headPtr rest)) p none with memDef
  have relinked : Linked mem ((front ++ [(q, e)]) ++ rest) := by
    rw [List.append_assoc]
    refine linked_relink ?_ ?_ linked ?_
    · rw [memDef, Function.update_of_ne qNotP]
      exact setNext_self behind.1 _
    · refine linked_congr (fun r member => ?_) behind.2.2
      have notP : r ≠ p := fun same => pNotRest (same ▸ member)
      have notQ : r ≠ q := fun same => qNotRest (same ▸ member)
      rw [memDef, Function.update_of_ne notP, setNext_of_ne notQ]
    · intro r member
      rw [memDef, Function.update_of_ne (apart r member p (by simp)),
        setNext_of_ne (apart r member q (by simp))]
  have others : ∀ r, r ∉ (chains b).map Prod.fst → mem r = h.mem r := by
    intro r outside
    simp only [split, List.map_append, List.map_cons, List.mem_append, List.mem_cons,
      not_or] at outside
    rw [memDef, Function.update_of_ne outside.2.2.1, setNext_of_ne outside.2.1]
  have unlinked := represents_unlink rep splitBehind relinked others
  rw [sameHead] at unlinked
  simpa using unlinked

omit [DecidableEq K] in
theorem behind_not_head {chain front rest : List (Ptr × D)} {p q : Ptr} {d e : D}
    (split : chain = front ++ (q, e) :: (p, d) :: rest) (ptrs : (chain.map Prod.fst).Nodup) :
    some p ≠ headPtr chain := by
  subst split
  cases front with
  | nil =>
      intro same
      have atHead : p = q := by simpa [headPtr] using same
      simp [atHead] at ptrs
  | cons first more =>
      intro same
      have atHead : p = first.1 := by simpa [headPtr] using same
      simp [atHead] at ptrs

/-- The walk of the removal, with the nodes it has passed in `front`. -/
theorem deleteLoop_spec {h : Hash s D} {chains : Table s (Ptr × D)}
    (rep : Represents h chains) {b : Fin s} (k : K) :
    ∀ {front rest : List (Ptr × D)} {fuel : Nat} {pptr : Option Ptr},
      chains b = front ++ rest → (∀ node ∈ front, nodeKey keyOf node ≠ k) →
      (front ≠ [] → pptr = front.getLast?.map Prod.fst) → rest.length ≤ fuel →
      ∃ h', deleteLoop keyOf h b k (headPtr (chains b)) fuel pptr (headPtr rest) = some h' ∧
        Represents h' (Function.update chains b
          ((chains b).eraseP fun node => nodeKey keyOf node = k))
  | front, [], fuel, pptr, split, clean, _, _ => by
      have untouched : (chains b).eraseP (fun node => nodeKey keyOf node = k) = chains b := by
        refine List.eraseP_of_forall_not fun node member => ?_
        rw [split, List.append_nil] at member
        simpa using clean node member
      refine ⟨h, by cases fuel <;> rfl, ?_⟩
      rwa [untouched, Function.update_eq_self]
  | front, (p, d) :: rest, 0, pptr, _, _, _, enough => by simp at enough
  | front, (p, d) :: rest, fuel + 1, pptr, split, clean, previous, enough => by
      have chainLinked := rep.linked b
      have ptrs := chain_ptrs_nodup rep b
      rw [split] at chainLinked
      have node : h.mem p = some ⟨headPtr rest, d⟩ := (linked_append_right chainLinked).1
      by_cases same : keyOf d = k
      · rw [eraseP_split split clean same]
        rcases List.eq_nil_or_concat' front with rfl | ⟨earlier, ⟨q, e⟩, rfl⟩
        · refine ⟨_, ?_, represents_unlink_head rep split⟩
          simp [deleteLoop, headPtr, split, node, same]
        · have behind : chains b = earlier ++ (q, e) :: (p, d) :: rest := by simp [split]
          have notHead : some p ≠ headPtr (chains b) := behind_not_head behind ptrs
          have pptrIs : pptr = some q := by simpa using previous (by simp)
          refine ⟨_, ?_, by simpa using represents_unlink_behind rep behind⟩
          have here : headPtr ((p, d) :: rest) = some p := rfl
          simp [deleteLoop, here, node, same, pptrIs, notHead]
      · have passed : ∀ n ∈ front ++ [(p, d)], nodeKey keyOf n ≠ k := by
          intro n member
          rcases List.mem_append.mp member with old | new
          · exact clean n old
          · rw [List.mem_singleton.mp new]
            exact same
        have pptrIs : front ++ [(p, d)] ≠ [] → some p = (front ++ [(p, d)]).getLast?.map Prod.fst :=
          fun _ => by simp
        obtain ⟨h', walk, result⟩ := deleteLoop_spec rep k (split.trans (by simp)) passed pptrIs
          (Nat.le_of_succ_le_succ enough)
        refine ⟨h', ?_, result⟩
        simpa [deleteLoop, headPtr, node, same] using walk

theorem chainDelete_spec (calcHash : K → Fin s) (keyOf : D → K)
    {h : Hash s D} {chains : Table s (Ptr × D)}
    (rep : Represents h chains) (k : K) :
    ∃ h', chainDelete calcHash keyOf h k = some h' ∧
      Represents h' (erase calcHash (nodeKey keyOf) chains k) := by
  have nothingPassed : ∀ node ∈ ([] : List (Ptr × D)), nodeKey keyOf node ≠ k := by simp
  obtain ⟨h', walk, result⟩ := deleteLoop_spec rep k (List.nil_append _).symm
    nothingPassed (fun nonempty => absurd rfl nonempty) (chain_length_le rep (calcHash k))
  refine ⟨h', ?_, result⟩
  simpa only [chainDelete, rep.heads] using walk

end Spec

/-! ## Iteration

The iteration reads a node's link before it calls back, so the callback may
remove the entry it is given.  Removal goes by key and takes the first node of
that key: the given node or one that the iteration has already passed. -/

section Iterate
variable {s : Nat} {D K σ : Type} [DecidableEq K] {calcHash : K → Fin s} {keyOf : D → K}

/-- A callback that returns 0, notes the data it is given and may decide, from
all it has seen, to remove that entry. -/
def visitor (calcHash : K → Fin s) (keyOf : D → K) (update : σ → D → σ)
    (removes : σ → D → Bool) (state : Hash s D × σ × List D) (data : D) :
    Option ((Hash s D × σ × List D) × Int) :=
  let (h, seen, visited) := state
  if removes seen data then
    (chainDelete calcHash keyOf h (keyOf data)).map fun h' =>
      ((h', update seen data, visited ++ [data]), 0)
  else some ((h, update seen data, visited ++ [data]), 0)

theorem eraseP_passed {N : Type} (key : N → K) (done : List N) (n : N) (rest : List N) :
    ∃ done', (done ++ n :: rest).eraseP (fun m => key m = key n) = done' ++ rest := by
  by_cases earlier : ∃ m ∈ done, key m = key n
  · obtain ⟨m, member, same⟩ := earlier
    refine ⟨done.eraseP (fun m => key m = key n) ++ [n], ?_⟩
    rw [List.eraseP_append_left (by simpa using same) _ member]
    simp
  · refine ⟨done, ?_⟩
    rw [List.eraseP_append_right]
    · simp
    · intro m member
      simpa using fun same => earlier ⟨m, member, same⟩

/-- The calls of an iteration without the table: one whose result is not zero is
the last. -/
def walk (visit : σ → D → σ × Bool) : σ → List D → σ × Bool
  | seen, [] => (seen, false)
  | seen, d :: rest =>
      match visit seen d with
      | (seen, true) => (seen, true)
      | (seen, false) => walk visit seen rest

omit [DecidableEq K] in
theorem walk_append (visit : σ → D → σ × Bool) (first second : List D) (seen : σ) :
    walk visit seen (first ++ second) =
      if (walk visit seen first).2 then walk visit seen first
      else walk visit (walk visit seen first).1 second := by
  induction first generalizing seen with
  | nil => rfl
  | cons d rest ih =>
      rw [List.cons_append, walk, walk]
      split
      · rfl
      · exact ih _

/-- A callback does to what it carries what `visit` does, and leaves a table whose
own bucket still ends in the nodes that the iteration has yet to visit. -/
structure Simulates (func : Hash s D × σ → D → Option ((Hash s D × σ) × Int))
    (visit : σ → D → σ × Bool) (Ok : Hash s D → σ → Table s (Ptr × D) → Prop) : Prop where
  represents : ∀ {h seen chains}, Ok h seen chains → Represents h chains
  call : ∀ {h seen chains} {b : Fin s} {done rest : List (Ptr × D)} {p : Ptr} {d : D},
    Ok h seen chains → chains b = done ++ (p, d) :: rest →
    ∃ h' chains' done' err, func (h, seen) d = some ((h', (visit seen d).1), err) ∧
      (err ≠ 0 ↔ (visit seen d).2 = true) ∧ Ok h' (visit seen d).1 chains' ∧
      chains' b = done' ++ rest ∧ ∀ c, c ≠ b → chains' c = chains c

section Simulates
variable {func : Hash s D × σ → D → Option ((Hash s D × σ) × Int)} {visit : σ → D → σ × Bool}
  {Ok : Hash s D → σ → Table s (Ptr × D) → Prop}

theorem Simulates.iterateChain (simulates : Simulates func visit Ok) {b : Fin s}
    {rest done : List (Ptr × D)} {fuel : Nat} {h : Hash s D} {seen : σ}
    {chains : Table s (Ptr × D)} (ok : Ok h seen chains) (split : chains b = done ++ rest)
    (enough : rest.length ≤ fuel) :
    ∃ h' chains' err,
      iterateChain func fuel (headPtr rest) (h, seen) =
        some ((h', (walk visit seen (rest.map Prod.snd)).1), err) ∧
      (err ≠ 0 ↔ (walk visit seen (rest.map Prod.snd)).2 = true) ∧
      Ok h' (walk visit seen (rest.map Prod.snd)).1 chains' ∧
      ∀ c, c ≠ b → chains' c = chains c := by
  induction rest generalizing done fuel h seen chains with
  | nil =>
      refine ⟨h, chains, 0, ?_, by simp [walk], ok, fun _ _ => rfl⟩
      cases fuel <;> simp [HashChains.iterateChain, headPtr, walk]
  | cons node rest ih =>
      obtain ⟨p, d⟩ := node
      cases fuel with
      | zero => simp at enough
      | succ fuel =>
          have chainLinked := (simulates.represents ok).linked b
          rw [split] at chainLinked
          have node : h.mem p = some ⟨headPtr rest, d⟩ := (linked_append_right chainLinked).1
          obtain ⟨h', chains', done', err, called, ends, ok', split', others⟩ :=
            simulates.call ok split
          have here : headPtr ((p, d) :: rest) = some p := rfl
          rw [here, HashChains.iterateChain, List.map_cons, walk]
          cases result : visit seen d with
          | mk seen' stops =>
              rw [result] at called ends ok'
              cases stops with
              | true =>
                  refine ⟨h', chains', err, ?_, ends, ok', others⟩
                  have stopped : err ≠ 0 := ends.mpr rfl
                  simp [node, called, stopped]
              | false =>
                  have goes : err = 0 := not_not.mp fun stopped => by simpa using ends.mp stopped
                  obtain ⟨h'', chains'', err', later, ends', ok'', others'⟩ :=
                    ih ok' split' (Nat.le_of_succ_le_succ enough)
                  refine ⟨h'', chains'', err', ?_, ends', ok'', fun c other => ?_⟩
                  · simp [node, called, goes, later]
                  · rw [others' c other, others c other]

theorem Simulates.iterateBuckets (simulates : Simulates func visit Ok) {buckets : List (Fin s)}
    {h : Hash s D} {seen : σ} {chains : Table s (Ptr × D)} (distinct : buckets.Nodup)
    (ok : Ok h seen chains) :
    ∃ h' chains' err,
      iterateBuckets func buckets (h, seen) =
        some ((h', (walk visit seen ((buckets.flatMap chains).map Prod.snd)).1), err) ∧
      (err ≠ 0 ↔ (walk visit seen ((buckets.flatMap chains).map Prod.snd)).2 = true) ∧
      Ok h' (walk visit seen ((buckets.flatMap chains).map Prod.snd)).1 chains' := by
  induction buckets generalizing h seen chains with
  | nil => exact ⟨h, chains, 0, by simp [HashChains.iterateBuckets, walk], by simp [walk], ok⟩
  | cons b buckets ih =>
      obtain ⟨fresh, distinctRest⟩ := List.nodup_cons.mp distinct
      have rep := simulates.represents ok
      obtain ⟨h', chains', err, called, ends, ok', others⟩ :=
        simulates.iterateChain ok (List.nil_append (chains b)).symm (chain_length_le rep b)
      have untouched : buckets.flatMap chains' = buckets.flatMap chains := by
        refine List.flatMap_congr fun c member => others c ?_
        intro same
        subst same
        exact fresh member
      rw [HashChains.iterateBuckets, List.flatMap_cons, List.map_append, walk_append]
      simp only [rep.heads b, called, Option.bind_eq_bind, Option.bind_some]
      by_cases stopped : err ≠ 0
      · rw [if_pos stopped, if_pos (ends.mp stopped)]
        exact ⟨h', chains', err, rfl, ends, ok'⟩
      · rw [if_neg stopped, if_neg fun stops => stopped (ends.mpr stops), ← untouched]
        exact ih distinctRest ok'

/-- An iteration visits every entry that was there at the start once, in bucket
order, up to the first call that ends it, and reads no node that is gone. -/
theorem Simulates.chainIterate (simulates : Simulates func visit Ok) {h : Hash s D} {seen : σ}
    {chains : Table s (Ptr × D)} (ok : Ok h seen chains) :
    ∃ h' chains' err,
      chainIterate func (h, seen) =
        some ((h', (walk visit seen ((toList chains).map Prod.snd)).1), err) ∧
      (err ≠ 0 ↔ (walk visit seen ((toList chains).map Prod.snd)).2 = true) ∧
      Ok h' (walk visit seen ((toList chains).map Prod.snd)).1 chains' :=
  simulates.iterateBuckets (List.nodup_finRange s) ok

end Simulates

/-- What a removal by key leaves of the bucket of the given node. -/
theorem erase_passed {chains : Table s (Ptr × D)}
    (placed : Placed calcHash (nodeKey keyOf) chains) {b : Fin s} {done rest : List (Ptr × D)}
    {p : Ptr} {d : D} (split : chains b = done ++ (p, d) :: rest) :
    (∃ done', erase calcHash (nodeKey keyOf) chains (keyOf d) b = done' ++ rest) ∧
      ∀ c, c ≠ b → erase calcHash (nodeKey keyOf) chains (keyOf d) c = chains c := by
  have bucket : calcHash (keyOf d) = b := placed b (p, d) (by simp [split])
  obtain ⟨done', erased⟩ := eraseP_passed (nodeKey keyOf) done (p, d) rest
  rw [erase, bucket]
  refine ⟨⟨done', ?_⟩, fun c other => Function.update_of_ne other _ _⟩
  rw [Function.update_self, split]
  exact erased

def visitorStep (update : σ → D → σ) (state : σ × List D) (data : D) : (σ × List D) × Bool :=
  ((update state.1 data, state.2 ++ [data]), false)

theorem visitor_simulates (update : σ → D → σ) (removes : σ → D → Bool) :
    Simulates (visitor calcHash keyOf update removes) (visitorStep update)
      (fun h _ chains => Represents h chains ∧ Placed calcHash (nodeKey keyOf) chains) where
  represents := fun ok => ok.1
  call := by
    intro h state chains b done rest p d ok split
    obtain ⟨rep, placed⟩ := ok
    obtain ⟨seen, visited⟩ := state
    by_cases chosen : removes seen d = true
    · obtain ⟨h', deleted, rep'⟩ := chainDelete_spec calcHash keyOf rep (keyOf d)
      obtain ⟨⟨done', erased⟩, others⟩ := erase_passed placed split
      refine ⟨h', _, done', 0, ?_, by simp [visitorStep], ⟨rep', placed_erase placed _⟩, erased,
        others⟩
      simp [visitor, visitorStep, chosen, deleted]
    · refine ⟨h, chains, done ++ [(p, d)], 0, ?_, by simp [visitorStep], ⟨rep, placed⟩, ?_,
        fun _ _ => rfl⟩
      · simp [visitor, visitorStep, chosen]
      · simp [split]

omit [DecidableEq K] in
theorem walk_visitorStep (update : σ → D → σ) (seen : σ) (visited entries : List D) :
    (walk (visitorStep update) (seen, visited) entries).2 = false ∧
      (walk (visitorStep update) (seen, visited) entries).1.2 = visited ++ entries := by
  induction entries generalizing seen visited with
  | nil => exact ⟨rfl, (List.append_nil visited).symm⟩
  | cons d rest ih =>
      have later := ih (update seen d) (visited ++ [d])
      rw [List.append_assoc] at later
      exact later

theorem chainIterate_spec {h : Hash s D} {chains : Table s (Ptr × D)} (rep : Represents h chains)
    (placed : Placed calcHash (nodeKey keyOf) chains) (update : σ → D → σ)
    (removes : σ → D → Bool) (seen : σ) :
    ∃ h' chains' seen',
      chainIterate (visitor calcHash keyOf update removes) (h, seen, []) =
        some ((h', seen', (toList chains).map Prod.snd), 0) ∧
      Represents h' chains' ∧ Placed calcHash (nodeKey keyOf) chains' := by
  obtain ⟨goes, visited⟩ := walk_visitorStep update seen [] ((toList chains).map Prod.snd)
  obtain ⟨h', chains', err, iterated, ends, rep', placed'⟩ :=
    (visitor_simulates update removes).chainIterate ⟨rep, placed⟩
  have finished : err = 0 := by
    by_contra stopped
    rw [ends.mp stopped] at goes
    cases goes
  let last := walk (visitorStep update) (seen, []) ((toList chains).map Prod.snd)
  refine ⟨h', chains', last.1.1, ?_, rep', placed'⟩
  rw [iterated, finished]
  exact congrArg (fun visited => some ((h', last.1.1, visited), 0)) visited

end Iterate

end OaiPmip.HashChains
