import Mathlib.Data.List.Induction
import OaiPmip.HashChains
import OaiPmip.Lib.Runs

/-!
# The three hash tables and what they refine

`pmip_hash`, `hash` and `flow_mob_hash_structure` are `HashChains` with their
own keys.  An entry is its key and its data.  The tables are compared with two
abstract ones over whole sequences of additions and removals: the set of keys
that a table without duplicates holds, and the association list of the entries
in the order of their insertion.
-/

set_option autoImplicit false

namespace OaiPmip.HashKeys

open OaiPmip.ChainTable OaiPmip.HashChains OaiPmip.Runs

/-- The key of the binding cache, `(mn_nai, mag_address)`. -/
structure PmipKey where
  mnNai : Nai
  magAddress : In6Addr
  deriving DecidableEq

/-- A `char` promoted to `uint32_t`. -/
def promoteChar (c : UInt8) : UInt32 :=
  if c < 128 then c.toUInt32 else c.toUInt32 ||| 0xFFFFFF00

def addrWords (a : In6Addr) : UInt32 :=
  s6Addr32 a 0 ^^^ s6Addr32 a 1 ^^^ s6Addr32 a 2 ^^^ s6Addr32 a 3

def calcHash (s : Nat) [NeZero s] (k : PmipKey) : Fin s :=
  let hash := k.mnNai.bytes.foldl (fun hash c => promoteChar c ^^^ hash) 0
  Fin.ofNat s (hash ^^^ addrWords k.magAddress).toNat

/-- `SINGLE_ADDR` and `DOUBLE_ADDR` of hash.h. -/
inductive HashType where
  | singleAddr
  | doubleAddr
  deriving DecidableEq

/-- The key that `match1` or `match2` compares: a table of single addresses
ignores `our_addr`. -/
structure AddrKey where
  ourAddr : Option In6Addr
  peerAddr : In6Addr
  deriving DecidableEq

def addrKey (type : HashType) (ourAddr peerAddr : In6Addr) : AddrKey :=
  match type with
  | .singleAddr => ⟨none, peerAddr⟩
  | .doubleAddr => ⟨some ourAddr, peerAddr⟩

/-- `calc_hash1` and `calc_hash2` of hash.c. -/
def calcAddrHash (s : Nat) [NeZero s] (k : AddrKey) : Fin s :=
  match k.ourAddr with
  | none => Fin.ofNat s (addrWords k.peerAddr).toNat
  | some ourAddr => Fin.ofNat s (addrWords ourAddr ^^^ addrWords k.peerAddr).toNat

/-- The seven fields that `match` of fmpmip_flowmob_hash.c compares. -/
structure FlowKey where
  ip6Source : In6Addr
  ip6Destination : In6Addr
  transportProtocol : UInt32
  transportSourcePort : UInt16
  transportDestinationPort : UInt16
  trafficClass : UInt8
  flowLabel : UInt32
  deriving DecidableEq

/-- `calc_hash` of fmpmip_flowmob_hash.c: the first four bytes of the
destination. -/
def calcFlowHash (s : Nat) [NeZero s] (k : FlowKey) : Fin s :=
  let d := k.ip6Destination
  Fin.ofNat s (d.get 0 ^^^ d.get 1 ^^^ d.get 2 ^^^ d.get 3).toNat

section Tables
variable {s : Nat} [NeZero s] {V : Type}

abbrev PmipHash (s : Nat) (V : Type) := Hash s (PmipKey × V)

def pmipHashGet (h : PmipHash s V) (mnNai : Nai) (magAddress : In6Addr) : Option (Option V) :=
  (chainGet (calcHash s) Prod.fst h ⟨mnNai, magAddress⟩).map fun found => found.map Prod.snd

def pmipHashAdd (h : PmipHash s V) (data : V) (mnNai : Nai) (magAddress : In6Addr)
    (mallocOk : Bool) : Option (PmipHash s V × Int) :=
  chainAdd (calcHash s) Prod.fst h (⟨mnNai, magAddress⟩, data) mallocOk

def pmipHashDelete (h : PmipHash s V) (mnNai : Nai) (magAddress : In6Addr) :
    Option (PmipHash s V) :=
  chainDelete (calcHash s) Prod.fst h ⟨mnNai, magAddress⟩

omit [NeZero s] in
def pmipHashIterate {σ : Type}
    (func : PmipHash s V × σ → PmipKey × V → Option ((PmipHash s V × σ) × Int))
    (state : PmipHash s V × σ) : Option ((PmipHash s V × σ) × Int) :=
  chainIterate func state

def hashAdd (type : HashType) (h : Hash s (AddrKey × V)) (data : V) (ourAddr peerAddr : In6Addr)
    (mallocOk : Bool) : Option (Hash s (AddrKey × V) × Int) :=
  chainAdd (calcAddrHash s) Prod.fst h (addrKey type ourAddr peerAddr, data) mallocOk

def hashDelete (type : HashType) (h : Hash s (AddrKey × V)) (ourAddr peerAddr : In6Addr) :
    Option (Hash s (AddrKey × V)) :=
  chainDelete (calcAddrHash s) Prod.fst h (addrKey type ourAddr peerAddr)

def flowMobHashAdd (h : Hash s (FlowKey × V)) (data : V) (key : FlowKey) (mallocOk : Bool) :
    Option (Hash s (FlowKey × V) × Int) :=
  chainAdd (calcFlowHash s) Prod.fst h (key, data) mallocOk

def flowMobHashDelete (h : Hash s (FlowKey × V)) (key : FlowKey) :
    Option (Hash s (FlowKey × V)) :=
  chainDelete (calcFlowHash s) Prod.fst h key

end Tables

/-! ## Sequences of additions and removals -/

inductive HashCall (A V : Type) where
  | add (key : A) (data : V) (mallocOk : Bool)
  | delete (key : A)

def HashCall.allocates {A V : Type} : HashCall A V → Bool
  | .add _ _ mallocOk => mallocOk
  | .delete _ => true

section Calls
variable {s : Nat} [NeZero s] {V : Type}

def pmipCall (h : PmipHash s V) : HashCall PmipKey V → Option (PmipHash s V × Int)
  | .add key data mallocOk => pmipHashAdd h data key.mnNai key.magAddress mallocOk
  | .delete key => (pmipHashDelete h key.mnNai key.magAddress).map fun h' => (h', 0)

/-- A call of hash.c; the key is named by `our_addr` and `peer_addr`. -/
def addrCall (type : HashType) (h : Hash s (AddrKey × V)) :
    HashCall (In6Addr × In6Addr) V → Option (Hash s (AddrKey × V) × Int)
  | .add (ourAddr, peerAddr) data mallocOk => hashAdd type h data ourAddr peerAddr mallocOk
  | .delete (ourAddr, peerAddr) => (hashDelete type h ourAddr peerAddr).map fun h' => (h', 0)

def flowCall (h : Hash s (FlowKey × V)) :
    HashCall FlowKey V → Option (Hash s (FlowKey × V) × Int)
  | .add key data mallocOk => flowMobHashAdd h data key mallocOk
  | .delete key => (flowMobHashDelete h key).map fun h' => (h', 0)

end Calls

section KeySets
variable {s : Nat} {A K V : Type} [DecidableEq K]

def hashCall (hashOf : K → Fin s) (toKey : A → K) (h : Hash s (K × V)) :
    HashCall A V → Option (Hash s (K × V) × Int)
  | .add key data mallocOk => chainAdd hashOf Prod.fst h (toKey key, data) mallocOk
  | .delete key => (chainDelete hashOf Prod.fst h (toKey key)).map fun h' => (h', 0)

/-- A table beside the set of keys that the calls so far ask for.  The set knows
nothing of buckets. -/
structure KeyState (s : Nat) (K V : Type) where
  table : Hash s (K × V)
  keys : List K

def KeyState.init (s : Nat) (K V : Type) : KeyState s K V := ⟨hashInit s (K × V), []⟩

def nextKeys (toKey : A → K) (keys : List K) : HashCall A V → List K
  | .add key _ _ => if toKey key ∈ keys then keys else toKey key :: keys
  | .delete key => keys.erase (toKey key)

def keyStep (call : Hash s (K × V) → HashCall A V → Option (Hash s (K × V) × Int))
    (toKey : A → K) (state : KeyState s K V) (c : HashCall A V) :
    Except Unit (KeyState s K V) :=
  match call state.table c with
  | none => .error ()
  | some (table, _) => .ok ⟨table, nextKeys toKey state.keys c⟩

omit [DecidableEq K] in
def tableKeys (h : Hash s (K × V)) : List K := (toList (contents h)).map Prod.fst

/-- The call leaves no key twice in the table, and an addition is refused, with
the table unchanged, exactly when its key is in the table; what decides is the
set of keys alone. -/
def KeysExact (call : Hash s (K × V) → HashCall A V → Option (Hash s (K × V) × Int))
    (toKey : A → K) (state : KeyState s K V) (c : HashCall A V) : Prop :=
  ∃ table result, call state.table c = some (table, result) ∧ (tableKeys table).Nodup ∧
    match c with
    | .add key _ _ =>
        (result = eexist ↔ toKey key ∈ tableKeys state.table) ∧
        (result = eexist ↔ toKey key ∈ state.keys) ∧
        (result = eexist → contents table = contents state.table) ∧
        (result = eexist ∨ result = 0)
    | .delete _ => True

def TailFree (hashOf : K → Fin s) (toKey : A → K) (state : KeyState s K V) :
    HashCall A V → Prop
  | .add key _ _ =>
      ∀ entry, (contents state.table (hashOf (toKey key))).getLast? = some entry →
        entry.1 ≠ toKey key
  | .delete _ => True

instance (hashOf : K → Fin s) (toKey : A → K) (state : KeyState s K V) :
    ∀ c : HashCall A V, Decidable (TailFree hashOf toKey state c)
  | .add key _ _ => inferInstanceAs (Decidable
      (∀ entry ∈ (contents state.table (hashOf (toKey key))).getLast?, entry.1 ≠ toKey key))
  | .delete _ => .isTrue trivial

def HoldsKeys (hashOf : K → Fin s) (state : KeyState s K V) : Prop :=
  ∃ chains, Represents state.table chains ∧ Placed hashOf (nodeKey Prod.fst) chains ∧
    ((toList chains).map (nodeKey Prod.fst)).Perm state.keys ∧ state.keys.Nodup

variable {hashOf : K → Fin s} {toKey : A → K}

omit [DecidableEq K] in
theorem holdsKeys_init : HoldsKeys hashOf (KeyState.init s K V) :=
  ⟨_, represents_hashInit, placed_empty, by simp [KeyState.init], List.nodup_nil⟩

omit [DecidableEq K] in
theorem tableKeys_spec {h : Hash s (K × V)} {chains : Table s (Ptr × K × V)}
    (rep : Represents h chains) :
    tableKeys h = (toList chains).map (nodeKey Prod.fst) := by
  rw [tableKeys, toList_contents rep, List.map_map]
  rfl

omit [DecidableEq K] in
theorem mem_keys_iff_bucket {chains : Table s (Ptr × K × V)}
    (placed : Placed hashOf (nodeKey Prod.fst) chains) (k : K) :
    k ∈ (toList chains).map (nodeKey Prod.fst) ↔
      k ∈ (chains (hashOf k)).map (nodeKey Prod.fst) := by
  constructor
  · intro member
    obtain ⟨node, inTable, same⟩ := List.mem_map.mp member
    obtain ⟨b, inChain⟩ := (mem_toList _ _).mp inTable
    have bucket := placed b node inChain
    rw [same] at bucket
    exact List.mem_map.mpr ⟨node, bucket ▸ inChain, same⟩
  · intro member
    obtain ⟨node, inChain, same⟩ := List.mem_map.mp member
    exact List.mem_map.mpr ⟨node, (mem_toList _ _).mpr ⟨_, inChain⟩, same⟩

omit [DecidableEq K] in
theorem mem_chain_iff_compared_or_last (chain : List (Ptr × K × V)) (k : K) :
    k ∈ chain.map (nodeKey Prod.fst) ↔
      k ∈ compared Prod.fst chain ∨
        ∃ entry, (chain.map Prod.snd).getLast? = some entry ∧ entry.1 = k := by
  rcases List.eq_nil_or_concat' chain with rfl | ⟨front, last, rfl⟩
  · simp [compared]
  · simp [compared, nodeKey, eq_comm]

omit [DecidableEq K] in
theorem last_notMem_compared {chain : List (Ptr × K × V)} {k : K}
    (distinct : (chain.map (nodeKey Prod.fst)).Nodup) {entry : K × V}
    (last : (chain.map Prod.snd).getLast? = some entry) (same : entry.1 = k) :
    k ∉ compared Prod.fst chain := by
  rcases List.eq_nil_or_concat' chain with rfl | ⟨front, node, rfl⟩
  · simp [compared]
  · have lastIs : node.2 = entry := by simpa using last
    rw [List.map_append, List.nodup_append] at distinct
    intro member
    refine distinct.2.2 k ?_ (nodeKey Prod.fst node) (by simp) ?_
    · simpa [compared] using member
    · rw [nodeKey, lastIs, same]

omit [DecidableEq K] in
theorem chain_keys_nodup {chains : Table s (Ptr × K × V)}
    (distinct : ((toList chains).map (nodeKey (Prod.fst : K × V → K))).Nodup) (b : Fin s) :
    ((chains b).map (nodeKey (Prod.fst : K × V → K))).Nodup := by
  obtain ⟨before, after, here, _⟩ := toList_update chains b
  rw [here, List.map_append, List.map_append] at distinct
  exact (List.nodup_append.mp (List.nodup_append.mp distinct).1).2.1

/-- On a table that holds the keys of the set, an addition is right exactly
when the last node of its chain does not have its key. -/
theorem keysExact_add_iff {state : KeyState s K V} (holds : HoldsKeys hashOf state)
    (key : A) (data : V) :
    KeysExact (hashCall hashOf toKey) toKey state (.add key data true) ↔
      TailFree hashOf toKey state (.add key data true) := by
  obtain ⟨chains, rep, placed, perm, distinct⟩ := holds
  have tableDistinct := perm.nodup_iff.mpr distinct
  have inSet : ∀ k, k ∈ state.keys ↔ k ∈ tableKeys state.table := by
    intro k
    rw [tableKeys_spec rep]
    exact (perm.mem_iff).symm
  have inChain : toKey key ∈ tableKeys state.table ↔
      toKey key ∈ (chains (hashOf (toKey key))).map (nodeKey Prod.fst) := by
    rw [tableKeys_spec rep]
    exact mem_keys_iff_bucket placed _
  have split := mem_chain_iff_compared_or_last (chains (hashOf (toKey key))) (toKey key)
  rw [← contents_spec rep] at split
  rcases chainAdd_spec hashOf Prod.fst rep (toKey key, data) with
    ⟨refused, table, added, rep'⟩ | ⟨accepted, table, added, rep'⟩
  · -- a compared node has the key, so the last one does not
    have present : toKey key ∈ tableKeys state.table := inChain.mpr (split.mpr (Or.inl refused))
    have exact : KeysExact (hashCall hashOf toKey) toKey state (.add key data true) := by
      refine ⟨table, eexist, added, ?_, ?_, ?_, ?_, Or.inl rfl⟩
      · rwa [tableKeys_spec rep']
      · simp [present]
      · simp [inSet, present]
      · intro _
        funext b
        rw [contents_spec rep', contents_spec rep]
    refine iff_of_true exact ?_
    intro entry last same
    rw [contents_spec rep] at last
    exact last_notMem_compared (chain_keys_nodup tableDistinct _) last same refused
  · constructor
    · rintro ⟨table', result, added', _, refusedIff, _⟩ entry last same
      have present : toKey key ∈ tableKeys state.table :=
        inChain.mpr (split.mpr (Or.inr ⟨entry, last, same⟩))
      have resultIs : result = 0 := by
        have both := added.symm.trans added'
        simp only [Option.some.injEq, Prod.mk.injEq] at both
        exact both.2.symm
      have refusedResult := refusedIff.mpr present
      rw [resultIs] at refusedResult
      exact absurd refusedResult (by decide)
    · intro tailFree
      have missing : toKey key ∉ tableKeys state.table := by
        intro present
        rcases split.mp (inChain.mp present) with early | ⟨entry, last, same⟩
        · exact accepted early
        · exact tailFree entry last same
      refine ⟨table, 0, added, ?_, ?_, ?_, ?_, Or.inr rfl⟩
      · rw [tableKeys_spec rep']
        refine ((toList_append_perm _ _ _).map _).nodup_iff.mpr ?_
        rw [List.map_cons, List.nodup_cons]
        refine ⟨?_, tableDistinct⟩
        rw [← tableKeys_spec rep]
        exact missing
      · simp [missing, eexist]
      · simp [inSet, missing, eexist]
      · intro impossible
        exact absurd impossible (by decide)

theorem delete_holdsKeys {state : KeyState s K V} (holds : HoldsKeys hashOf state) (k : K) :
    ∃ table, chainDelete hashOf Prod.fst state.table k = some table ∧
      HoldsKeys hashOf ⟨table, state.keys.erase k⟩ := by
  obtain ⟨chains, rep, placed, perm, distinct⟩ := holds
  obtain ⟨table, deleted, rep'⟩ := chainDelete_spec hashOf Prod.fst rep k
  refine ⟨table, deleted, _, rep', placed_erase placed k, ?_, distinct.erase k⟩
  cases found : get hashOf (nodeKey Prod.fst) chains k with
  | none =>
      have missing : k ∉ state.keys := by
        intro present
        obtain ⟨node, inTable, same⟩ := List.mem_map.mp (perm.mem_iff.mpr present)
        exact get_none placed found node inTable same
      rw [erase_of_get_none found, List.erase_of_not_mem missing]
      exact perm
  | some node =>
      have keyIs : nodeKey Prod.fst node = k := (get_some found).2
      have moved := (toList_erase_perm found).map (nodeKey Prod.fst)
      rw [List.map_cons, keyIs] at moved
      have removed := (moved.symm.trans perm).erase k
      rwa [List.erase_cons_head] at removed

theorem keysExact_iff_tailFree {state : KeyState s K V} (c : HashCall A V)
    (allocates : c.allocates = true) (holds : HoldsKeys hashOf state) :
    KeysExact (hashCall hashOf toKey) toKey state c ↔ TailFree hashOf toKey state c := by
  cases c with
  | add key data mallocOk =>
      obtain rfl : mallocOk = true := allocates
      exact keysExact_add_iff holds key data
  | delete key =>
      obtain ⟨table, deleted, chains, rep, _, perm, distinct⟩ := delete_holdsKeys holds (toKey key)
      refine iff_of_true ⟨table, 0, by simp [hashCall, deleted], ?_, trivial⟩ trivial
      rw [tableKeys_spec rep]
      exact perm.nodup_iff.mpr distinct

theorem keyStep_holdsKeys {state next : KeyState s K V} (c : HashCall A V)
    (allocates : c.allocates = true) (holds : HoldsKeys hashOf state)
    (tailFree : TailFree hashOf toKey state c)
    (taken : keyStep (hashCall hashOf toKey) toKey state c = .ok next) :
    HoldsKeys hashOf next := by
  cases c with
  | delete key =>
      obtain ⟨table, deleted, holds'⟩ := delete_holdsKeys holds (toKey key)
      simp only [keyStep, hashCall, deleted, Option.map_some, Except.ok.injEq] at taken
      exact taken ▸ holds'
  | add key data mallocOk =>
      obtain rfl : mallocOk = true := allocates
      obtain ⟨table, result, added, tableDistinct, _, inSet, _, _⟩ :=
        (keysExact_add_iff holds key data).mpr tailFree
      obtain ⟨chains, rep, placed, perm, distinct⟩ := holds
      simp only [keyStep, added, Except.ok.injEq] at taken
      subst taken
      rcases chainAdd_spec hashOf Prod.fst rep (toKey key, data) with
        ⟨_, table', added', rep'⟩ | ⟨_, table', added', rep'⟩
      all_goals
        have both := added'.symm.trans added
        simp only [Option.some.injEq, Prod.mk.injEq] at both
        obtain ⟨rfl, resultIs⟩ := both
      · have present : toKey key ∈ state.keys := inSet.mp resultIs.symm
        exact ⟨chains, rep', placed, by simpa [nextKeys, present] using perm,
          by simpa [nextKeys, present] using distinct⟩
      · have missing : toKey key ∉ state.keys := fun present =>
          absurd (resultIs.trans (inSet.mpr present)) (by decide)
        have placed' := placed_append placed (state.table.top, toKey key, data)
        have grown := (toList_append_perm chains (hashOf (toKey key))
          (state.table.top, toKey key, data)).map (nodeKey Prod.fst)
        refine ⟨_, rep', placed', ?_, ?_⟩
        · simpa [nextKeys, missing] using grown.trans (perm.cons (toKey key))
        · simp [nextKeys, missing, distinct]

/-- Over a whole sequence of calls the table behaves as a set of keys exactly
when no addition meets its key at the end of its chain. -/
theorem keysExact_meets_iff (calls : List (HashCall A V))
    (allocated : ∀ c ∈ calls, c.allocates = true) :
    Meets (keyStep (hashCall hashOf toKey) toKey) (KeysExact (hashCall hashOf toKey) toKey)
        (KeyState.init s K V) calls ↔
      Meets (keyStep (hashCall hashOf toKey) toKey) (TailFree hashOf toKey)
        (KeyState.init s K V) calls := by
  have agree : ∀ (state : KeyState s K V) (c : HashCall A V), c.allocates = true →
      HoldsKeys hashOf state →
      (KeysExact (hashCall hashOf toKey) toKey state c ↔ TailFree hashOf toKey state c) :=
    fun _ c allocates holds => keysExact_iff_tailFree c allocates holds
  refine meets_iff_of_invariant agree ?_ calls _ allocated holdsKeys_init
  intro state c next allocates holds tailFree taken
  exact keyStep_holdsKeys c allocates holds tailFree taken

end KeySets

/-! ## The association list

Entries in the order in which they were added.  What the code does to its
chains is what is done here to the whole list. -/

section Assoc
variable {s : Nat} {A K V : Type} [DecidableEq K]

/-- A table beside the entries that were added successfully and not yet
removed, oldest first. -/
structure AssocState (s : Nat) (K V : Type) where
  table : Hash s (K × V)
  entries : List (K × V)

def AssocState.init (s : Nat) (K V : Type) : AssocState s K V := ⟨hashInit s (K × V), []⟩

def nextEntries (toKey : A → K) (entries : List (K × V)) (result : Int) :
    HashCall A V → List (K × V)
  | .add key data _ => if result = 0 then entries ++ [(toKey key, data)] else entries
  | .delete key => entries.eraseP fun entry => entry.1 = toKey key

def assocStep (call : Hash s (K × V) → HashCall A V → Option (Hash s (K × V) × Int))
    (toKey : A → K) (state : AssocState s K V) (c : HashCall A V) :
    Except Unit (AssocState s K V) :=
  match call state.table c with
  | none => .error ()
  | some (table, result) => .ok ⟨table, nextEntries toKey state.entries result c⟩

def chainsOf (hashOf : K → Fin s) (entries : List (K × V)) : Table s (K × V) :=
  fun b => entries.filter fun entry => hashOf entry.1 = b

def Refines (hashOf : K → Fin s) (state : AssocState s K V) : Prop :=
  ∃ chains, Represents state.table chains ∧
    ∀ b, (chains b).map Prod.snd = chainsOf hashOf state.entries b

variable {hashOf : K → Fin s} {toKey : A → K}

omit [DecidableEq K] in
theorem refines_init (hashOf : K → Fin s) : Refines hashOf (AssocState.init s K V) :=
  ⟨_, represents_hashInit, fun _ => rfl⟩

omit [DecidableEq K] in
theorem placed_of_refines {chains : Table s (Ptr × K × V)} {entries : List (K × V)}
    (same : ∀ b, (chains b).map Prod.snd = chainsOf hashOf entries b) :
    Placed hashOf (nodeKey Prod.fst) chains := by
  intro b node member
  have inEntries : node.2 ∈ chainsOf hashOf entries b := by
    rw [← same b]
    exact List.mem_map.mpr ⟨node, member, rfl⟩
  simpa [chainsOf, nodeKey] using (List.mem_filter.mp inEntries).2

omit [DecidableEq K] in
theorem contents_of_refines {state : AssocState s K V} (refines : Refines hashOf state) :
    contents state.table = chainsOf hashOf state.entries := by
  obtain ⟨chains, rep, same⟩ := refines
  funext b
  rw [contents_spec rep, same]

omit [DecidableEq K] in
theorem chainsOf_concat (entries : List (K × V)) (entry : K × V) :
    chainsOf hashOf (entries ++ [entry]) =
      append (chainsOf hashOf entries) (hashOf entry.1) entry := by
  funext b
  by_cases bucket : b = hashOf entry.1
  · subst bucket
    simp [chainsOf, append]
  · simp [chainsOf, append, Function.update_of_ne bucket, Ne.symm bucket]

/-- Taking the first entry of a key out of the list takes it out of its chain
and leaves the other chains alone. -/
theorem chainsOf_eraseP (entries : List (K × V)) (k : K) :
    chainsOf hashOf (entries.eraseP fun entry => entry.1 = k) =
      erase hashOf Prod.fst (chainsOf hashOf entries) k := by
  funext b
  induction entries with
  | nil => by_cases bucket : b = hashOf k <;> simp [chainsOf, erase, Function.update, bucket]
  | cons entry rest ih =>
      by_cases same : entry.1 = k
      · by_cases bucket : b = hashOf k
        · subst bucket
          simp [chainsOf, erase, same]
        · simp [chainsOf, erase, same, Function.update_of_ne bucket, Ne.symm bucket]
      · by_cases bucket : b = hashOf k
        · subst bucket
          by_cases inChain : hashOf entry.1 = hashOf k
          · simpa [chainsOf, erase, same, inChain, List.eraseP_cons] using ih
          · simpa [chainsOf, erase, same, inChain, List.eraseP_cons] using ih
        · simp only [erase, Function.update_of_ne bucket, chainsOf] at ih ⊢
          by_cases inChain : hashOf entry.1 = b <;>
            simp [same, inChain, ih]

omit [DecidableEq K] in
theorem toList_chainsOf_perm (entries : List (K × V)) :
    (toList (chainsOf hashOf entries)).Perm entries := by
  induction entries using List.reverseRecOn with
  | nil => simp [chainsOf, toList]
  | append_singleton front entry ih =>
      rw [chainsOf_concat]
      refine (toList_append_perm _ _ _).trans ((ih.cons entry).trans ?_)
      simpa using (List.perm_append_singleton entry front).symm

omit [DecidableEq K] in
theorem entry_bucket_map {chains : Table s (Ptr × K × V)} {entries : List (K × V)}
    (same : ∀ b, (chains b).map Prod.snd = chainsOf hashOf entries b)
    (node : Ptr × K × V) (b : Fin s) :
    (append chains (hashOf node.2.1) node b).map Prod.snd =
      chainsOf hashOf (entries ++ [node.2]) b := by
  rw [chainsOf_concat]
  by_cases bucket : b = hashOf node.2.1
  · subst bucket
    simp [append, same]
  · simp [append, Function.update_of_ne bucket, same]

theorem chainAdd_refines {state : AssocState s K V} (refines : Refines hashOf state)
    (k : K) (data : V) (mallocOk : Bool) :
    ∃ table result,
      chainAdd hashOf Prod.fst state.table (k, data) mallocOk = some (table, result) ∧
      Refines hashOf
        ⟨table, if result = 0 then state.entries ++ [(k, data)] else state.entries⟩ := by
  obtain ⟨chains, rep, same⟩ := refines
  cases mallocOk with
  | false => exact ⟨state.table, enomem, by simp [chainAdd], chains, rep, same⟩
  | true =>
      rcases chainAdd_spec hashOf Prod.fst rep (k, data) with
        ⟨_, table, added, rep'⟩ | ⟨_, table, added, rep'⟩
      · exact ⟨table, eexist, added, chains, rep', same⟩
      · exact ⟨table, 0, added, _, rep', entry_bucket_map same (state.table.top, k, data)⟩

theorem map_snd_eraseP (chain : List (Ptr × K × V)) (k : K) :
    (chain.eraseP fun node => nodeKey Prod.fst node = k).map Prod.snd =
      (chain.map Prod.snd).eraseP fun entry => entry.1 = k := by
  induction chain with
  | nil => rfl
  | cons node rest ih =>
      by_cases matched : node.2.1 = k
      · simp [nodeKey, matched]
      · simpa [nodeKey, matched] using ih

theorem chainDelete_refines {state : AssocState s K V} (refines : Refines hashOf state) (k : K) :
    ∃ table, chainDelete hashOf Prod.fst state.table k = some table ∧
      Refines hashOf ⟨table, state.entries.eraseP fun entry => entry.1 = k⟩ := by
  obtain ⟨chains, rep, same⟩ := refines
  obtain ⟨table, deleted, rep'⟩ := chainDelete_spec hashOf Prod.fst rep k
  refine ⟨table, deleted, _, rep', fun b => ?_⟩
  rw [chainsOf_eraseP]
  by_cases bucket : b = hashOf k
  · subst bucket
    simp only [erase, Function.update_self]
    rw [map_snd_eraseP, same]
  · simp only [erase, Function.update_of_ne bucket]
    exact same b

theorem assocStep_refines (toKey : A → K) {state : AssocState s K V} (refines : Refines hashOf state)
    (c : HashCall A V) :
    ∃ next, assocStep (hashCall hashOf toKey) toKey state c = .ok next ∧ Refines hashOf next := by
  cases c with
  | add key data mallocOk =>
      obtain ⟨table, result, added, refines'⟩ :=
        chainAdd_refines refines (toKey key) data mallocOk
      exact ⟨_, by simp only [assocStep, hashCall, added, nextEntries], refines'⟩
  | delete key =>
      obtain ⟨table, deleted, refines'⟩ := chainDelete_refines refines (toKey key)
      exact ⟨_, by simp only [assocStep, hashCall, deleted, Option.map_some, nextEntries],
        refines'⟩

theorem assocRun_refines (toKey : A → K) (calls : List (HashCall A V)) {state : AssocState s K V}
    (refines : Refines hashOf state) :
    ∃ final, run (assocStep (hashCall hashOf toKey) toKey) state calls = .ok final ∧
      Refines hashOf final := by
  induction calls generalizing state with
  | nil => exact ⟨state, rfl, refines⟩
  | cons c rest ih =>
      obtain ⟨next, taken, refines'⟩ := assocStep_refines toKey refines c
      obtain ⟨final, restRun, refines''⟩ := ih refines'
      exact ⟨final, by simp only [run, taken, restRun], refines''⟩

theorem find?_chainsOf (hashOf : K → Fin s) (entries : List (K × V)) (k : K) :
    (chainsOf hashOf entries (hashOf k)).find? (fun entry => entry.1 = k) =
      entries.find? fun entry => entry.1 = k := by
  rw [chainsOf, List.find?_filter]
  congr 1
  funext entry
  by_cases same : entry.1 = k
  · simp [same]
  · simp [same]

theorem chainGet_refines {state : AssocState s K V} (refines : Refines hashOf state) (k : K) :
    chainGet hashOf Prod.fst state.table k =
      some (state.entries.find? fun entry => entry.1 = k) := by
  obtain ⟨chains, rep, same⟩ := refines
  rw [chainGet_spec hashOf Prod.fst rep, ← find?_chainsOf hashOf, ← same,
    List.find?_map]
  rfl

theorem find?_eraseP_other (entries : List (K × V)) {k other : K} (different : other ≠ k) :
    (entries.eraseP fun entry => entry.1 = k).find? (fun entry => entry.1 = other) =
      entries.find? fun entry => entry.1 = other := by
  induction entries with
  | nil => rfl
  | cons entry rest ih =>
      by_cases same : entry.1 = k
      · simp [same, Ne.symm different]
      · by_cases atOther : entry.1 = other
        · simp [atOther, different]
        · simpa [same, atOther] using ih

theorem filter_eraseP_other (entries : List (K × V)) (k : K) :
    (entries.eraseP fun entry => entry.1 = k).filter (fun entry => entry.1 ≠ k) =
      entries.filter fun entry => entry.1 ≠ k := by
  induction entries with
  | nil => rfl
  | cons entry rest ih =>
      by_cases same : entry.1 = k
      · simp [same]
      · simpa [same] using ih

theorem toList_eraseP {entries : List (K × V)} (k : K) :
    toList (chainsOf hashOf (entries.eraseP fun entry => entry.1 = k)) =
      (toList (chainsOf hashOf entries)).eraseP fun entry => entry.1 = k := by
  have placed : Placed hashOf Prod.fst (chainsOf hashOf entries) := by
    intro b entry member
    simpa [chainsOf] using (List.mem_filter.mp member).2
  rw [chainsOf_eraseP, toList_erase placed]

end Assoc

section Instances
variable {s : Nat} [NeZero s] {V : Type}

theorem pmipCall_eq :
    (pmipCall : PmipHash s V → HashCall PmipKey V → _) = hashCall (calcHash s) id := by
  funext h c
  cases c <;> rfl

theorem addrCall_eq (type : HashType) :
    (addrCall type : Hash s (AddrKey × V) → _ → _) =
      hashCall (calcAddrHash s) fun addrs => addrKey type addrs.1 addrs.2 := by
  funext h c
  cases c <;> rfl

theorem flowCall_eq :
    (flowCall : Hash s (FlowKey × V) → HashCall FlowKey V → _) =
      hashCall (calcFlowHash s) id := by
  funext h c
  cases c <;> rfl

/-- The binding cache, the tables of hash.c and the flow table keep their keys
unique, over any sequence of calls, exactly when no addition is made of a key
that the last node of its chain has. -/
theorem hash_add_keys_exact_iff (s : Nat) [NeZero s] (V : Type) (type : HashType) :
    (∀ calls : List (HashCall PmipKey V), (∀ c ∈ calls, c.allocates = true) →
      (Meets (keyStep pmipCall id) (KeysExact pmipCall id) (KeyState.init s PmipKey V) calls ↔
        Meets (keyStep pmipCall id) (TailFree (calcHash s) id) (KeyState.init s PmipKey V)
          calls)) ∧
    (∀ calls : List (HashCall (In6Addr × In6Addr) V), (∀ c ∈ calls, c.allocates = true) →
      (Meets (keyStep (addrCall type) fun addrs => addrKey type addrs.1 addrs.2)
          (KeysExact (addrCall type) fun addrs => addrKey type addrs.1 addrs.2)
          (KeyState.init s AddrKey V) calls ↔
        Meets (keyStep (addrCall type) fun addrs => addrKey type addrs.1 addrs.2)
          (TailFree (calcAddrHash s) fun addrs => addrKey type addrs.1 addrs.2)
          (KeyState.init s AddrKey V) calls)) ∧
    (∀ calls : List (HashCall FlowKey V), (∀ c ∈ calls, c.allocates = true) →
      (Meets (keyStep flowCall id) (KeysExact flowCall id) (KeyState.init s FlowKey V) calls ↔
        Meets (keyStep flowCall id) (TailFree (calcFlowHash s) id) (KeyState.init s FlowKey V)
          calls)) := by
  rw [pmipCall_eq, addrCall_eq, flowCall_eq]
  exact ⟨keysExact_meets_iff, keysExact_meets_iff, keysExact_meets_iff⟩

def sameBucket : PmipKey := ⟨⟨[1, 1] ++ List.replicate 61 0, rfl⟩, in6addrAny⟩

/-- Two keys of one bucket; the first of its chain is refused when it is added
again. -/
theorem hash_add_keys_exact_collision :
    calcHash 128 sameBucket = calcHash 128 ⟨Octets.zero 63, in6addrAny⟩ ∧
      Meets (keyStep pmipCall id) (KeysExact pmipCall id) (KeyState.init 128 PmipKey Nat)
        [.add ⟨Octets.zero 63, in6addrAny⟩ 1 true, .add sameBucket 2 true,
          .add ⟨Octets.zero 63, in6addrAny⟩ 3 true, .delete sameBucket] := by
  refine ⟨by decide, ?_⟩
  exact ((hash_add_keys_exact_iff 128 Nat .doubleAddr).1
    [.add ⟨Octets.zero 63, in6addrAny⟩ 1 true, .add sameBucket 2 true,
      .add ⟨Octets.zero 63, in6addrAny⟩ 3 true, .delete sameBucket]
    (by simp [HashCall.allocates])).mpr (by decide)

/-- Adding one key twice: the second addition succeeds too. -/
theorem pmip_hash_add_twice :
    ¬ ∀ (s : Nat) [NeZero s] (calls : List (HashCall PmipKey Nat)),
      (∀ c ∈ calls, c.allocates = true) →
      Meets (keyStep pmipCall id) (KeysExact pmipCall id) (KeyState.init s PmipKey Nat)
        calls := by
  intro claimed
  have twice := claimed 128 [.add ⟨Octets.zero 63, in6addrAny⟩ 1 true,
    .add ⟨Octets.zero 63, in6addrAny⟩ 2 true] (by simp [HashCall.allocates])
  obtain ⟨⟨table, result, added, _, _, refused, _⟩, _⟩ := twice.2 _ rfl
  have accepted : result = 0 := by
    have results := congrArg (Option.map Prod.snd) added
    exact (Option.some.inj results).symm
  have present : result = eexist := refused.mpr (by decide)
  rw [accepted] at present
  exact absurd present (by decide)

theorem pmipHashGet_refines {state : AssocState s PmipKey V}
    (refines : Refines (calcHash s) state) (k : PmipKey) :
    pmipHashGet state.table k.mnNai k.magAddress =
      some ((state.entries.find? fun entry => entry.1 = k).map Prod.snd) := by
  rw [pmipHashGet, chainGet_refines refines]
  rfl

/-- Over any sequence of calls the binding cache is an association list in
insertion order: lookup finds the oldest entry of a key, removal takes exactly
that entry out and disturbs no other key's lookup or place in the iteration,
and an iteration meets every entry once even when its callback removes entries. -/
theorem pmip_hash_refines_assoc_list (s : Nat) [NeZero s] (V : Type)
    (calls : List (HashCall PmipKey V)) :
    ∃ final, run (assocStep pmipCall id) (AssocState.init s PmipKey V) calls = .ok final ∧
      (∀ k : PmipKey, pmipHashGet final.table k.mnNai k.magAddress =
        some ((final.entries.find? fun entry => entry.1 = k).map Prod.snd)) ∧
      (∀ k : PmipKey, ∃ table,
        pmipHashDelete final.table k.mnNai k.magAddress = some table ∧
        toList (contents table) =
          (toList (contents final.table)).eraseP (fun entry => entry.1 = k) ∧
        (∀ other : PmipKey, pmipHashGet table other.mnNai other.magAddress =
          some (((final.entries.eraseP fun entry => entry.1 = k).find?
            fun entry => entry.1 = other).map Prod.snd)) ∧
        (∀ other : PmipKey, other ≠ k →
          pmipHashGet table other.mnNai other.magAddress =
            pmipHashGet final.table other.mnNai other.magAddress) ∧
        (toList (contents table)).filter (fun entry => entry.1 ≠ k) =
          (toList (contents final.table)).filter (fun entry => entry.1 ≠ k)) ∧
      (∀ (σ : Type) (update : σ → PmipKey × V → σ) (removes : σ → PmipKey × V → Bool)
        (seen : σ), ∃ table seen' visited,
          pmipHashIterate (visitor (calcHash s) Prod.fst update removes)
            (final.table, seen, []) = some ((table, seen', visited), 0) ∧
          visited = toList (contents final.table) ∧ visited.Perm final.entries) := by
  obtain ⟨final, finished, refines⟩ :=
    assocRun_refines id calls (refines_init (calcHash s))
  rw [pmipCall_eq]
  refine ⟨final, finished, pmipHashGet_refines refines, fun k => ?_, ?_⟩
  · obtain ⟨table, deleted, refines'⟩ := chainDelete_refines refines k
    have walk : toList (contents table) =
        (toList (contents final.table)).eraseP fun entry => entry.1 = k := by
      rw [contents_of_refines refines', contents_of_refines refines, toList_eraseP]
    refine ⟨table, deleted, walk, pmipHashGet_refines refines', fun other different => ?_, ?_⟩
    · rw [pmipHashGet_refines refines', pmipHashGet_refines refines,
        find?_eraseP_other _ different]
    · rw [walk, filter_eraseP_other]
  · intro σ update removes seen
    have walk := contents_of_refines refines
    obtain ⟨chains, rep, same⟩ := refines
    obtain ⟨table, _, seen', iterated, _⟩ :=
      chainIterate_spec rep (placed_of_refines same) update removes seen
    refine ⟨table, seen', _, iterated, (toList_contents rep).symm, ?_⟩
    rw [← toList_contents rep, walk]
    exact toList_chainsOf_perm final.entries

/-- One key added twice and deleted once: the second entry is found. -/
theorem pmip_hash_refines_assoc_list_duplicate :
    ∃ final, run (assocStep pmipCall id) (AssocState.init 128 PmipKey Nat)
        [.add ⟨Octets.zero 63, in6addrAny⟩ 1 true, .add ⟨Octets.zero 63, in6addrAny⟩ 2 true,
          .delete ⟨Octets.zero 63, in6addrAny⟩] = .ok final ∧
      pmipHashGet final.table (Octets.zero 63) in6addrAny = some (some 2) := by
  obtain ⟨final, finished, lookups, _⟩ := pmip_hash_refines_assoc_list 128 Nat
    [.add ⟨Octets.zero 63, in6addrAny⟩ 1 true, .add ⟨Octets.zero 63, in6addrAny⟩ 2 true,
      .delete ⟨Octets.zero 63, in6addrAny⟩]
  refine ⟨final, finished, ?_⟩
  have reached := Except.ok.inj finished
  subst reached
  rw [lookups ⟨Octets.zero 63, in6addrAny⟩]
  decide

end Instances

end OaiPmip.HashKeys
