import Mathlib.Data.List.Find
import OaiPmip.HashKeys
import OaiPmip.Lib.Paired

/-!
# Tunnel devices, tunnelctl.c

A tunnel record is in `tnl_list`, which is searched by interface index, and in
`tnl_hash`, which is searched by its two end points.  `users` counts the
`tunnel_add` calls that have not been undone.
-/

set_option autoImplicit false

namespace OaiPmip

open OaiPmip.ChainTable OaiPmip.HashChains OaiPmip.HashKeys

structure Mip6Tnl where
  laddr : In6Addr
  raddr : In6Addr
  link : Int
  ifindex : Int
  users : Int
  deriving DecidableEq

abbrev tnlBuckets : Nat := 32

theorem tnlBuckets_neZero : NeZero tnlBuckets := ⟨by decide⟩

structure TunnelCtl where
  heap : Ptr → Mip6Tnl
  top : Ptr
  tnlList : List Ptr
  tnlHash : Table tnlBuckets Ptr

/-- What the kernel and the allocator answer while a tunnel is created: the
interface index when `malloc` and all `ioctl` calls succeed, and whether the
hash node could be allocated. -/
structure TunnelEnv where
  ifindex : Option Int
  nodeAlloc : Bool

namespace TunnelCtl

def init : TunnelCtl where
  heap := fun _ => ⟨in6addrAny, in6addrAny, 0, 0, 0⟩
  top := 0
  tnlList := []
  tnlHash := ChainTable.empty tnlBuckets Ptr

def tnlKey (c : TunnelCtl) (tnl : Ptr) : AddrKey :=
  addrKey .doubleAddr (c.heap tnl).laddr (c.heap tnl).raddr

def getTnl (c : TunnelCtl) (ifindex : Int) : Option Ptr :=
  c.tnlList.find? fun tnl => (c.heap tnl).ifindex = ifindex

def setUsers (c : TunnelCtl) (tnl : Ptr) (users : Int) : TunnelCtl :=
  { c with heap := Function.update c.heap tnl { c.heap tnl with users := users } }

/-- `__tunnel_del`.  The released record keeps its address for itself. -/
def releaseTnl (c : TunnelCtl) (tnl : Ptr) : TunnelCtl :=
  let c := c.setUsers tnl ((c.heap tnl).users - 1)
  if (c.heap tnl).users = 0 then
    { c with
      tnlList := c.tnlList.filter fun other => other ≠ tnl
      tnlHash := erase (calcAddrHash tnlBuckets) c.tnlKey c.tnlHash (c.tnlKey tnl) }
  else c

def tunnelDel (c : TunnelCtl) (ifindex : Int) : TunnelCtl × Int :=
  match c.getTnl ifindex with
  | none => (c, -1)
  | some tnl => (c.releaseTnl tnl, 0)

def withRecord (c : TunnelCtl) (tnl : Mip6Tnl) : TunnelCtl :=
  { c with heap := Function.update c.heap c.top tnl, top := c.top + 1 }

/-- `__tunnel_add`. -/
def createTnl (c : TunnelCtl) (env : TunnelEnv) (local_ remote : In6Addr) (link : Int) :
    TunnelCtl × Option Ptr :=
  match env.ifindex with
  | none => (c, none)
  | some ifindex =>
      let tnl := c.top
      let c := c.withRecord ⟨local_, remote, link, ifindex, 1⟩
      let added := tableAdd (calcAddrHash tnlBuckets) c.tnlKey c.tnlHash tnl env.nodeAlloc
      if added.2 < 0 then (c, none)
      else ({ c with tnlHash := added.1, tnlList := c.tnlList ++ [tnl] }, some tnl)

def tunnelAdd (c : TunnelCtl) (env : TunnelEnv) (local_ remote : In6Addr) (link : Int) :
    TunnelCtl × Int :=
  match ChainTable.get (calcAddrHash tnlBuckets) c.tnlKey c.tnlHash
      (addrKey .doubleAddr local_ remote) with
  | some tnl => (c.setUsers tnl ((c.heap tnl).users + 1), (c.heap tnl).ifindex)
  | none =>
      match c.createTnl env local_ remote link with
      | (c, none) => (c, -1)
      | (c, some tnl) => (c, (c.heap tnl).ifindex)

def tunnelGetusers (c : TunnelCtl) (ifindex : Int) : Int :=
  match c.getTnl ifindex with
  | none => -1
  | some tnl => (c.heap tnl).users

/-! ## The table of devices

`device` is what the two structures stand for: the tunnel between two end
points, with its interface index and its user count. -/

/-- The invariant of `tnl_list` and `tnl_hash`. -/
structure Ok (c : TunnelCtl) : Prop where
  below : ∀ p ∈ c.tnlList, p < c.top
  nodup : c.tnlList.Nodup
  placed : Placed (calcAddrHash tnlBuckets) c.tnlKey c.tnlHash
  sameNodes : (toList c.tnlHash).Perm c.tnlList
  keys : ∀ p ∈ c.tnlList, ∀ q ∈ c.tnlList, c.tnlKey p = c.tnlKey q → p = q
  indices : ∀ p q, p < c.top → q < c.top → (c.heap p).ifindex = (c.heap q).ifindex → p = q
  positive : ∀ p, p < c.top → 0 < (c.heap p).ifindex
  users : ∀ p ∈ c.tnlList, 1 ≤ (c.heap p).users

theorem Ok.paired {c : TunnelCtl} (ok : Ok c) :
    Paired (calcAddrHash tnlBuckets) c.tnlKey c.tnlList c.tnlHash :=
  ⟨ok.nodup, ok.placed, ok.sameNodes, ok.keys⟩

def device (c : TunnelCtl) (l r : In6Addr) : Option (Int × Int) :=
  (c.tnlList.find? fun p => c.tnlKey p = addrKey .doubleAddr l r).map fun p =>
    ((c.heap p).ifindex, (c.heap p).users)

def Issued (c : TunnelCtl) (i : Int) (r : In6Addr) : Prop :=
  ∃ p, p < c.top ∧ (c.heap p).ifindex = i ∧ (c.heap p).raddr = r

def Fresh (c : TunnelCtl) (i : Int) : Prop :=
  0 < i ∧ ∀ p, p < c.top → (c.heap p).ifindex ≠ i

instance (c : TunnelCtl) (i : Int) : Decidable (c.Fresh i) :=
  inferInstanceAs (Decidable (0 < i ∧ ∀ p, p < c.top → (c.heap p).ifindex ≠ i))

theorem ok_init : Ok TunnelCtl.init where
  below := by simp [TunnelCtl.init]
  nodup := List.nodup_nil
  placed := placed_empty
  sameNodes := by simp [TunnelCtl.init]
  keys := by simp [TunnelCtl.init]
  indices := by intro p q hp; simp [TunnelCtl.init] at hp
  positive := by intro p hp; simp [TunnelCtl.init] at hp
  users := by simp [TunnelCtl.init]

theorem tnlKey_eq_iff (c : TunnelCtl) (p : Ptr) (l r : In6Addr) :
    c.tnlKey p = addrKey .doubleAddr l r ↔ (c.heap p).laddr = l ∧ (c.heap p).raddr = r := by
  simp [tnlKey, addrKey]

theorem device_some {c : TunnelCtl} {l r : In6Addr} {i u : Int}
    (found : c.device l r = some (i, u)) :
    ∃ p ∈ c.tnlList, (c.heap p).laddr = l ∧ (c.heap p).raddr = r ∧
      (c.heap p).ifindex = i ∧ (c.heap p).users = u := by
  obtain ⟨p, hp, values⟩ := Option.map_eq_some_iff.mp found
  have matched := List.find?_some hp
  simp only [decide_eq_true_eq] at matched
  obtain ⟨left, right⟩ := (tnlKey_eq_iff c p l r).mp matched
  obtain ⟨index, users⟩ := Prod.mk.inj values
  exact ⟨p, List.mem_of_find?_eq_some hp, left, right, index, users⟩

theorem device_of_mem {c : TunnelCtl} (ok : Ok c) {p : Ptr} (member : p ∈ c.tnlList) :
    c.device (c.heap p).laddr (c.heap p).raddr = some ((c.heap p).ifindex, (c.heap p).users) := by
  have matched : c.tnlKey p = addrKey .doubleAddr (c.heap p).laddr (c.heap p).raddr := rfl
  simp only [device]
  cases found : c.tnlList.find? fun q => c.tnlKey q =
      addrKey .doubleAddr (c.heap p).laddr (c.heap p).raddr with
  | none =>
      have missing := List.find?_eq_none.mp found p member
      simp [matched] at missing
  | some q =>
      have same := List.find?_some found
      simp only [decide_eq_true_eq] at same
      have equal : q = p :=
        ok.keys q (List.mem_of_find?_eq_some found) p member (same.trans matched.symm)
      rw [equal]
      rfl

theorem device_none {c : TunnelCtl} {l r : In6Addr} (missing : c.device l r = none) :
    ∀ p ∈ c.tnlList, c.tnlKey p ≠ addrKey .doubleAddr l r := by
  intro p member same
  have absent := List.find?_eq_none.mp (Option.map_eq_none_iff.mp missing) p member
  simp [same] at absent

theorem issued_of_device {c : TunnelCtl} (ok : Ok c) {l r : In6Addr} {i u : Int}
    (found : c.device l r = some (i, u)) : c.Issued i r := by
  obtain ⟨p, member, _, right, index, _⟩ := device_some found
  exact ⟨p, ok.below p member, index, right⟩

theorem issued_unique {c : TunnelCtl} (ok : Ok c) {i : Int} {r r' : In6Addr}
    (first : c.Issued i r) (second : c.Issued i r') : r = r' := by
  obtain ⟨p, pBelow, pIndex, pRemote⟩ := first
  obtain ⟨q, qBelow, qIndex, qRemote⟩ := second
  have same := ok.indices p q pBelow qBelow (pIndex.trans qIndex.symm)
  rw [← pRemote, ← qRemote, same]

theorem getTnl_of_mem {c : TunnelCtl} (ok : Ok c) {p : Ptr} (member : p ∈ c.tnlList) :
    c.getTnl (c.heap p).ifindex = some p := by
  simp only [getTnl]
  cases found : c.tnlList.find? fun q => (c.heap q).ifindex = (c.heap p).ifindex with
  | none =>
      have missing := List.find?_eq_none.mp found p member
      simp at missing
  | some q =>
      have same := List.find?_some found
      simp only [decide_eq_true_eq] at same
      have inList := List.mem_of_find?_eq_some found
      rw [ok.indices q p (ok.below q inList) (ok.below p member) same]

theorem getTnl_some {c : TunnelCtl} {i : Int} {p : Ptr} (found : c.getTnl i = some p) :
    p ∈ c.tnlList ∧ (c.heap p).ifindex = i := by
  have same := List.find?_some found
  exact ⟨List.mem_of_find?_eq_some found, by simpa using same⟩

theorem getusers_of_device {c : TunnelCtl} (ok : Ok c) {l r : In6Addr} {i u : Int}
    (found : c.device l r = some (i, u)) : c.tunnelGetusers i = u := by
  obtain ⟨p, member, _, _, index, users⟩ := device_some found
  simp [tunnelGetusers, ← index, getTnl_of_mem ok member, users]

theorem device_of_getusers {c : TunnelCtl} (ok : Ok c) {i : Int}
    (counted : 0 ≤ c.tunnelGetusers i) :
    ∃ l r, c.device l r = some (i, c.tunnelGetusers i) := by
  simp only [tunnelGetusers] at counted ⊢
  cases found : c.getTnl i with
  | none => simp [found] at counted
  | some p =>
      obtain ⟨member, index⟩ := getTnl_some found
      exact ⟨_, _, by simpa [index] using device_of_mem ok member⟩

/-! ### What the operations do to the table -/

theorem setUsers_heap (c : TunnelCtl) (p q : Ptr) (u : Int) :
    ((c.setUsers p u).heap q).laddr = (c.heap q).laddr ∧
      ((c.setUsers p u).heap q).raddr = (c.heap q).raddr ∧
      ((c.setUsers p u).heap q).ifindex = (c.heap q).ifindex := by
  by_cases same : q = p
  · subst same
    simp [setUsers]
  · simp [setUsers, Function.update_of_ne same]

@[simp] theorem setUsers_tnlKey (c : TunnelCtl) (p : Ptr) (u : Int) :
    (c.setUsers p u).tnlKey = c.tnlKey := by
  funext q
  obtain ⟨left, right, _⟩ := setUsers_heap c p q u
  simp only [tnlKey, left, right]

theorem issued_setUsers (c : TunnelCtl) (p : Ptr) (u i : Int) (r : In6Addr) :
    (c.setUsers p u).Issued i r ↔ c.Issued i r := by
  simp only [Issued]
  constructor
  · intro given
    obtain ⟨q, below, index, remote⟩ := given
    obtain ⟨_, right, same⟩ := setUsers_heap c p q u
    exact ⟨q, below, same ▸ index, right ▸ remote⟩
  · intro given
    obtain ⟨q, below, index, remote⟩ := given
    obtain ⟨_, right, same⟩ := setUsers_heap c p q u
    exact ⟨q, below, same.trans index, right.trans remote⟩

theorem ok_setUsers {c : TunnelCtl} (ok : Ok c) (p : Ptr) {u : Int} (some_ : 1 ≤ u) :
    Ok (c.setUsers p u) where
  below := ok.below
  nodup := ok.nodup
  placed := by
    rw [setUsers_tnlKey]
    exact ok.placed
  sameNodes := ok.sameNodes
  keys := by
    rw [setUsers_tnlKey]
    exact ok.keys
  indices := by
    intro q q' below below'
    rw [(setUsers_heap c p q u).2.2, (setUsers_heap c p q' u).2.2]
    exact ok.indices q q' below below'
  positive := by
    intro q below
    rw [(setUsers_heap c p q u).2.2]
    exact ok.positive q below
  users := by
    intro q member
    by_cases same : q = p
    · subst same
      simpa [setUsers] using some_
    · simpa [setUsers, Function.update_of_ne same] using ok.users q member

theorem device_setUsers {c : TunnelCtl} (ok : Ok c) {p : Ptr} (member : p ∈ c.tnlList) (u : Int)
    (l r : In6Addr) :
    (c.setUsers p u).device l r =
      if (c.heap p).laddr = l ∧ (c.heap p).raddr = r then some ((c.heap p).ifindex, u)
      else c.device l r := by
  simp only [device]
  rw [setUsers_tnlKey]
  change Option.map _ (c.tnlList.find? fun q => c.tnlKey q = addrKey .doubleAddr l r) = _
  cases found : c.tnlList.find? fun q => c.tnlKey q = addrKey .doubleAddr l r with
  | none =>
      have missing := List.find?_eq_none.mp found p member
      have apart : ¬ ((c.heap p).laddr = l ∧ (c.heap p).raddr = r) := by
        intro ends
        exact missing (by simpa using (tnlKey_eq_iff c p l r).mpr ends)
      simp [apart]
  | some q =>
      have matched := List.find?_some found
      simp only [decide_eq_true_eq] at matched
      have inList := List.mem_of_find?_eq_some found
      by_cases ends : (c.heap p).laddr = l ∧ (c.heap p).raddr = r
      · have same : q = p := ok.keys q inList p member
          (matched.trans ((tnlKey_eq_iff c p l r).mpr ends).symm)
        subst same
        simp [ends, setUsers]
      · have apart : q ≠ p := by
          intro same
          subst same
          exact ends ((tnlKey_eq_iff c q l r).mp matched)
        simp [ends, setUsers, Function.update_of_ne apart]

theorem get_hash {c : TunnelCtl} (ok : Ok c) (l r : In6Addr) :
    match ChainTable.get (calcAddrHash tnlBuckets) c.tnlKey c.tnlHash (addrKey .doubleAddr l r) with
    | some p => p ∈ c.tnlList ∧ (c.heap p).laddr = l ∧ (c.heap p).raddr = r
    | none => c.device l r = none := by
  cases found : ChainTable.get (calcAddrHash tnlBuckets) c.tnlKey c.tnlHash
      (addrKey .doubleAddr l r) with
  | some p =>
      obtain ⟨member, matched⟩ := ok.paired.get_eq_some.mp found
      exact ⟨member, (tnlKey_eq_iff c p l r).mp matched⟩
  | none =>
      have missing := ok.paired.get_eq_none.mp found
      simp only [device, Option.map_eq_none_iff]
      refine List.find?_eq_none.mpr fun p member => ?_
      simpa using missing p member

theorem withRecord_heap (c : TunnelCtl) (tnl : Mip6Tnl) {p : Ptr} (below : p < c.top) :
    (c.withRecord tnl).heap p = c.heap p :=
  Function.update_of_ne (Nat.ne_of_lt below) _ _

theorem withRecord_tnlKey (c : TunnelCtl) (tnl : Mip6Tnl) {p : Ptr} (below : p < c.top) :
    (c.withRecord tnl).tnlKey p = c.tnlKey p := by
  simp only [tnlKey, withRecord_heap c tnl below]

theorem ok_listed {c : TunnelCtl} (ok : Ok c) (tnl : Mip6Tnl)
    (new : c.device tnl.laddr tnl.raddr = none) (fresh : c.Fresh tnl.ifindex)
    (used : 1 ≤ tnl.users) :
    Ok { c.withRecord tnl with
      tnlHash := append c.tnlHash
        (calcAddrHash tnlBuckets (addrKey .doubleAddr tnl.laddr tnl.raddr)) c.top
      tnlList := c.tnlList ++ [c.top] } := by
  have topRecord : (c.withRecord tnl).heap c.top = tnl := by simp [withRecord]
  have topKey : (c.withRecord tnl).tnlKey c.top = addrKey .doubleAddr tnl.laddr tnl.raddr := by
    simp only [tnlKey, topRecord]
  have oldKey : ∀ p ∈ c.tnlList, (c.withRecord tnl).tnlKey p = c.tnlKey p := fun p member =>
    withRecord_tnlKey c tnl (ok.below p member)
  have notListed : c.top ∉ c.tnlList := fun member => absurd (ok.below _ member) (lt_irrefl _)
  have linked := (ok.paired.congr oldKey).link notListed fun p member => by
    rw [oldKey p member, topKey]
    exact device_none new p member
  rw [topKey] at linked
  refine ⟨?_, linked.nodup, linked.placed, linked.same, linked.apart, ?_, ?_, ?_⟩
  · intro p member
    rcases List.mem_append.mp member with old | new
    · exact Nat.lt_succ_of_lt (ok.below p old)
    · rw [List.mem_singleton.mp new]
      exact Nat.lt_succ_self _
  · intro p q below below' same
    change ((c.withRecord tnl).heap p).ifindex = ((c.withRecord tnl).heap q).ifindex at same
    rcases Nat.lt_succ_iff_lt_or_eq.mp below with old | rfl
    · rcases Nat.lt_succ_iff_lt_or_eq.mp below' with old' | rfl
      · rw [withRecord_heap c tnl old, withRecord_heap c tnl old'] at same
        exact ok.indices p q old old' same
      · rw [withRecord_heap c tnl old, topRecord] at same
        exact absurd same (fresh.2 p old)
    · rcases Nat.lt_succ_iff_lt_or_eq.mp below' with old' | rfl
      · rw [withRecord_heap c tnl old', topRecord] at same
        exact absurd same.symm (fresh.2 q old')
      · rfl
  · intro p below
    change 0 < ((c.withRecord tnl).heap p).ifindex
    rcases Nat.lt_succ_iff_lt_or_eq.mp below with old | rfl
    · rw [withRecord_heap c tnl old]
      exact ok.positive p old
    · rw [topRecord]
      exact fresh.1
  · intro p member
    change 1 ≤ ((c.withRecord tnl).heap p).users
    rcases List.mem_append.mp member with old | new
    · rw [withRecord_heap c tnl (ok.below p old)]
      exact ok.users p old
    · rw [List.mem_singleton.mp new, topRecord]
      exact used

theorem createTnl_spec {c : TunnelCtl} (ok : Ok c) {env : TunnelEnv} {i : Int}
    (created : env.ifindex = some i) (allocated : env.nodeAlloc = true)
    {l r : In6Addr} (new : c.device l r = none) (link : Int) :
    c.createTnl env l r link =
      ({ c.withRecord ⟨l, r, link, i, 1⟩ with
        tnlHash := append c.tnlHash (calcAddrHash tnlBuckets (addrKey .doubleAddr l r)) c.top
        tnlList := c.tnlList ++ [c.top] }, some c.top) := by
  have topKey : (c.withRecord ⟨l, r, link, i, 1⟩).tnlKey c.top = addrKey .doubleAddr l r := by
    simp [tnlKey, withRecord]
  have unlisted : (c.withRecord ⟨l, r, link, i, 1⟩).tnlKey c.top ∉
      (toList c.tnlHash).map (c.withRecord ⟨l, r, link, i, 1⟩).tnlKey := by
    intro member
    obtain ⟨p, inHash, same⟩ := List.mem_map.mp member
    have listed := ok.paired.mem_iff.mp inHash
    rw [withRecord_tnlKey c _ (ok.below p listed), topKey] at same
    exact device_none new p listed same
  have added := @tableAdd_new _ _ _ _ (calcAddrHash tnlBuckets) _ _ _ unlisted
  rw [topKey] at added
  have sameHash : (c.withRecord ⟨l, r, link, i, 1⟩).tnlHash = c.tnlHash := rfl
  simp only [createTnl]
  rw [created, allocated]
  simp only [sameHash, added]
  rfl

theorem device_listed {c : TunnelCtl} (ok : Ok c) (tnl : Mip6Tnl) (hash : Table tnlBuckets Ptr)
    {l r : In6Addr} (other : (l, r) ≠ (tnl.laddr, tnl.raddr)) :
    device { c.withRecord tnl with tnlHash := hash, tnlList := c.tnlList ++ [c.top] } l r =
      c.device l r := by
  have topKey : (c.withRecord tnl).tnlKey c.top = addrKey .doubleAddr tnl.laddr tnl.raddr := by
    simp [tnlKey, withRecord]
  have apart : ¬ (c.withRecord tnl).tnlKey c.top = addrKey .doubleAddr l r := by
    rw [topKey]
    intro same
    simp only [addrKey, AddrKey.mk.injEq, Option.some.injEq] at same
    exact other (by rw [same.1, same.2])
  have old : c.tnlList.find? (fun p => (c.withRecord tnl).tnlKey p = addrKey .doubleAddr l r) =
      c.tnlList.find? fun p => c.tnlKey p = addrKey .doubleAddr l r := by
    refine List.find?_congr fun p member => ?_
    rw [withRecord_tnlKey c tnl (ok.below p member)]
  change Option.map (fun p => (((c.withRecord tnl).heap p).ifindex,
    ((c.withRecord tnl).heap p).users)) ((c.tnlList ++ [c.top]).find? fun p =>
      (c.withRecord tnl).tnlKey p = addrKey .doubleAddr l r) = _
  rw [List.find?_append, old, device]
  cases found : c.tnlList.find? fun p => c.tnlKey p = addrKey .doubleAddr l r with
  | none => simp [apart]
  | some p =>
      have below := ok.below p (List.mem_of_find?_eq_some found)
      simp [withRecord_heap c tnl below]

/-- `tunnel_add` counts one more user of the tunnel between two end points and
creates it when there is none. -/
theorem tunnelAdd_spec {c : TunnelCtl} (ok : Ok c) {env : TunnelEnv} {i : Int}
    (created : env.ifindex = some i) (allocated : env.nodeAlloc = true) (fresh : c.Fresh i)
    (l r : In6Addr) (link : Int) :
    Ok (c.tunnelAdd env l r link).1 ∧
    (c.tunnelAdd env l r link).1.device l r =
      some ((c.tunnelAdd env l r link).2,
        match c.device l r with
        | some (_, u) => u + 1
        | none => 1) ∧
    (∀ j u, c.device l r = some (j, u) → (c.tunnelAdd env l r link).2 = j) ∧
    (∀ l' r', (l', r') ≠ (l, r) →
      (c.tunnelAdd env l r link).1.device l' r' = c.device l' r') ∧
    (∀ j q, c.Issued j q → (c.tunnelAdd env l r link).1.Issued j q) := by
  have lookup := get_hash ok l r
  simp only [tunnelAdd]
  cases found : ChainTable.get (calcAddrHash tnlBuckets) c.tnlKey c.tnlHash
      (addrKey .doubleAddr l r) with
  | some p =>
      rw [found] at lookup
      obtain ⟨member, rfl, rfl⟩ := lookup
      have here := device_of_mem ok member
      have more : 1 ≤ (c.heap p).users + 1 := by
        have := ok.users p member
        omega
      refine ⟨ok_setUsers ok p more, ?_, ?_, ?_, ?_⟩
      · simp [device_setUsers ok member, here]
      · intro j u same
        rw [here] at same
        exact (Prod.mk.inj (Option.some.inj same)).1
      · intro l' r' other
        rw [device_setUsers ok member, if_neg]
        intro given
        obtain ⟨rfl, rfl⟩ := given
        exact other rfl
      · intro j q issued
        exact (issued_setUsers c p _ j q).mpr issued
  | none =>
      rw [found] at lookup
      simp only at lookup
      rw [createTnl_spec ok created allocated lookup]
      have ok' := ok_listed ok ⟨l, r, link, i, 1⟩ lookup fresh (le_refl _)
      have listed : c.top ∈ c.tnlList ++ [c.top] := by simp
      have here := device_of_mem ok' listed
      refine ⟨ok', ?_, ?_, ?_, ?_⟩
      · simpa [withRecord, lookup] using here
      · intro j u same
        rw [lookup] at same
        cases same
      · intro l' r' other
        exact device_listed ok ⟨l, r, link, i, 1⟩ _ other
      · rintro j q ⟨p, below, index, remote⟩
        have kept := withRecord_heap c ⟨l, r, link, i, 1⟩ below
        exact ⟨p, Nat.lt_succ_of_lt below, (congrArg Mip6Tnl.ifindex kept).trans index,
          (congrArg Mip6Tnl.raddr kept).trans remote⟩

def withoutTnl (c : TunnelCtl) (p : Ptr) : TunnelCtl :=
  { c.setUsers p 0 with
    tnlList := c.tnlList.filter fun other => other ≠ p
    tnlHash := erase (calcAddrHash tnlBuckets) c.tnlKey c.tnlHash (c.tnlKey p) }

section Last
variable {c : TunnelCtl} {p : Ptr}

theorem releaseTnl_eq (last : (c.heap p).users = 1) : c.releaseTnl p = c.withoutTnl p := by
  have none_ : ((c.setUsers p 0).heap p).users = 0 := by simp [setUsers]
  simp only [releaseTnl, last, Int.sub_self, none_, if_true, setUsers_tnlKey]
  rfl

theorem withoutTnl_tnlKey : (c.withoutTnl p).tnlKey = c.tnlKey := setUsers_tnlKey c p 0

theorem mem_withoutTnl (q : Ptr) : q ∈ (c.withoutTnl p).tnlList ↔ q ∈ c.tnlList ∧ q ≠ p := by
  change q ∈ c.tnlList.filter (fun other => other ≠ p) ↔ _
  simp

theorem Ok.withoutTnl (ok : Ok c) (member : p ∈ c.tnlList) : Ok (c.withoutTnl p) := by
  have unlinked : Paired (calcAddrHash tnlBuckets) (c.withoutTnl p).tnlKey
      (c.withoutTnl p).tnlList (c.withoutTnl p).tnlHash := by
    rw [withoutTnl_tnlKey]
    exact ok.paired.unlink member
  refine ⟨?_, unlinked.nodup, unlinked.placed, unlinked.same, unlinked.apart, ?_, ?_, ?_⟩
  · exact fun q inList => ok.below q ((mem_withoutTnl q).mp inList).1
  · intro q q' below below'
    change ((c.setUsers p 0).heap q).ifindex = ((c.setUsers p 0).heap q').ifindex → _
    rw [(setUsers_heap c p q 0).2.2, (setUsers_heap c p q' 0).2.2]
    exact ok.indices q q' below below'
  · intro q below
    change 0 < ((c.setUsers p 0).heap q).ifindex
    rw [(setUsers_heap c p q 0).2.2]
    exact ok.positive q below
  · intro q inList
    obtain ⟨listed, other⟩ := (mem_withoutTnl q).mp inList
    change 1 ≤ ((c.setUsers p 0).heap q).users
    simpa [setUsers, Function.update_of_ne other] using ok.users q listed

theorem withoutTnl_device (ok : Ok c) (member : p ∈ c.tnlList) (l r : In6Addr) :
    (c.withoutTnl p).device l r =
      if (c.heap p).laddr = l ∧ (c.heap p).raddr = r then none else c.device l r := by
  by_cases ends : (c.heap p).laddr = l ∧ (c.heap p).raddr = r
  · rw [if_pos ends]
    simp only [device, Option.map_eq_none_iff, withoutTnl_tnlKey]
    refine List.find?_eq_none.mpr fun q inList matched => ?_
    obtain ⟨listed, other⟩ := (mem_withoutTnl q).mp inList
    have sameEnds := (of_decide_eq_true matched).trans ((tnlKey_eq_iff c p l r).mpr ends).symm
    exact other (ok.keys q listed p member sameEnds)
  · rw [if_neg ends]
    simp only [device, withoutTnl_tnlKey]
    have search : (c.withoutTnl p).tnlList.find?
        (fun q => c.tnlKey q = addrKey .doubleAddr l r) =
        c.tnlList.find? fun q => c.tnlKey q = addrKey .doubleAddr l r := by
      change (c.tnlList.filter fun q => q ≠ p).find? _ = _
      rw [List.find?_filter]
      refine List.find?_congr fun q _ => ?_
      by_cases here : q = p
      · have apart : ¬ c.tnlKey q = addrKey .doubleAddr l r := by
          rw [here, tnlKey_eq_iff]
          exact ends
        simp [apart]
      · simp [here]
    rw [search]
    cases located : c.tnlList.find? fun q => c.tnlKey q = addrKey .doubleAddr l r with
    | none => rfl
    | some q =>
        have other : q ≠ p := by
          intro same
          subst same
          have matched := List.find?_some located
          exact ends ((tnlKey_eq_iff c q l r).mp (of_decide_eq_true matched))
        simp [TunnelCtl.withoutTnl, setUsers, Function.update_of_ne other]

theorem releaseTnl_last (ok : Ok c) (member : p ∈ c.tnlList) (last : (c.heap p).users = 1) :
    Ok (c.releaseTnl p) ∧
    (∀ l r, (c.releaseTnl p).device l r =
      if (c.heap p).laddr = l ∧ (c.heap p).raddr = r then none else c.device l r) ∧
    (∀ j q, (c.releaseTnl p).Issued j q ↔ c.Issued j q) := by
  rw [releaseTnl_eq last]
  exact ⟨ok.withoutTnl member, withoutTnl_device ok member, issued_setUsers c p 0⟩

end Last

/-- `tunnel_del` takes one user off a device, and the device out with its last
user; an index that names no device changes nothing. -/
theorem tunnelDel_spec {c : TunnelCtl} (ok : Ok c) (i : Int) :
    Ok (c.tunnelDel i).1 ∧
    (∀ j q, (c.tunnelDel i).1.Issued j q ↔ c.Issued j q) ∧
    (∀ l r, (c.tunnelDel i).1.device l r =
      match c.device l r with
      | some (j, u) => if j = i then (if u = 1 then none else some (j, u - 1)) else some (j, u)
      | none => none) := by
  simp only [tunnelDel]
  cases found : c.getTnl i with
  | none =>
      refine ⟨ok, fun _ _ => Iff.rfl, fun l r => ?_⟩
      cases here : c.device l r with
      | none => rfl
      | some v =>
          obtain ⟨j, u⟩ := v
          have other : j ≠ i := by
            intro same
            subst same
            obtain ⟨p, member, _, _, index, _⟩ := device_some here
            rw [← index, getTnl_of_mem ok member] at found
            cases found
          simp [other]
  | some p =>
      obtain ⟨member, index⟩ := getTnl_some found
      have used := ok.users p member
      have entry := device_of_mem ok member
      -- the devices with other end points have other indices
      have others : ∀ l r, ¬ ((c.heap p).laddr = l ∧ (c.heap p).raddr = r) →
          ∀ j u, c.device l r = some (j, u) → j ≠ i := by
        intro l r apart j u here same
        obtain ⟨q, listed, left, right, qIndex, _⟩ := device_some here
        have equal := ok.indices q p (ok.below q listed) (ok.below p member)
          (qIndex.trans (same.trans index.symm))
        subst equal
        exact apart ⟨left, right⟩
      by_cases last : (c.heap p).users = 1
      · obtain ⟨ok', devices, issued⟩ := releaseTnl_last ok member last
        refine ⟨ok', issued, fun l r => ?_⟩
        simp only [devices]
        by_cases ends : (c.heap p).laddr = l ∧ (c.heap p).raddr = r
        · obtain ⟨rfl, rfl⟩ := ends
          simp [entry, index, last]
        · rw [if_neg ends]
          cases here : c.device l r with
          | none => rfl
          | some v => simp [others l r ends v.1 v.2 here]
      · have more : 1 ≤ (c.heap p).users - 1 := by omega
        have notLast : ¬ (c.heap p).users - 1 = 0 := by omega
        have released : c.releaseTnl p = c.setUsers p ((c.heap p).users - 1) := by
          have left : ((c.setUsers p ((c.heap p).users - 1)).heap p).users =
              (c.heap p).users - 1 := by simp [setUsers]
          simp [releaseTnl, left, notLast]
        simp only [released]
        refine ⟨ok_setUsers ok p more, issued_setUsers c p _, fun l r => ?_⟩
        rw [device_setUsers ok member]
        by_cases ends : (c.heap p).laddr = l ∧ (c.heap p).raddr = r
        · obtain ⟨rfl, rfl⟩ := ends
          simp [entry, index, last]
        · rw [if_neg ends]
          cases here : c.device l r with
          | none => rfl
          | some v => simp [others l r ends v.1 v.2 here]

end TunnelCtl

end OaiPmip
