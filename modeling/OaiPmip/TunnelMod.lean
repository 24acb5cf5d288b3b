import Mathlib.Algebra.BigOperators.Group.List.Basic
import OaiPmip.Lib.Paired
import OaiPmip.Tunnelctl

/-!
# Moving a tunnel to other end points, tunnel_mod

`tunnel_mod` joins the tunnel that exists between the new end points, has the
kernel change the old one, or replaces it; the callback is asked last and may
refuse.  The records that are freed on the way are listed in the result, so that
one which stays linked can be told.
-/

set_option autoImplicit false

namespace OaiPmip.TunnelCtl

open OaiPmip.ChainTable OaiPmip.HashChains OaiPmip.HashKeys

attribute [local instance] tnlBuckets_neZero

/-- What is answered during a `tunnel_mod`: by the kernel to `SIOCCHGTUNNEL`, by
`malloc` when the changed record is hashed again, by the kernel and `malloc` when
a tunnel is created, and by the callback, if there is one. -/
structure ModEnv where
  changed : Bool
  node : Bool
  created : TunnelEnv
  ext : Bool

/-- `assert(old != NULL)` fails, or a freed record is read. -/
inductive ModFault where
  | assertFailed
  | useAfterFree
  deriving DecidableEq

structure ModResult where
  ctl : TunnelCtl
  freed : List Ptr
  ret : Int

/-- The record that `memcpy` leaves. -/
def withEnds (c : TunnelCtl) (tnl : Ptr) (local_ remote : In6Addr) (link : Int) : TunnelCtl :=
  let parm := { c.heap tnl with laddr := local_, raddr := remote, link := link }
  { c with heap := Function.update c.heap tnl parm }

/-- `__tunnel_mod`.  When the record cannot be hashed again it is freed, with its
place in the list. -/
def changeTnl (c : TunnelCtl) (env : ModEnv) (tnl : Ptr) (local_ remote : In6Addr) (link : Int) :
    ModResult :=
  if env.changed then
    let hash := erase (calcAddrHash tnlBuckets) c.tnlKey c.tnlHash (c.tnlKey tnl)
    let c := c.withEnds tnl local_ remote link
    let added := tableAdd (calcAddrHash tnlBuckets) c.tnlKey hash tnl env.node
    if added.2 < 0 then ⟨{ c with tnlHash := hash }, [tnl], -1⟩
    else ⟨{ c with tnlHash := added.1 }, [], (c.heap tnl).ifindex⟩
  else ⟨c, [], -1⟩

/-- What `__tunnel_del` frees. -/
def lastUser (c : TunnelCtl) (tnl : Ptr) : List Ptr := if (c.heap tnl).users = 1 then [tnl] else []

/-- The end of `tunnel_mod`, from the callback on. -/
def finishMod (c : TunnelCtl) (env : ModEnv) (old new : Ptr) : ModResult :=
  if env.ext then
    if old ≠ new then ⟨c.releaseTnl old, c.lastUser old, (c.heap new).ifindex⟩
    else ⟨c, [], (c.heap new).ifindex⟩
  else if old ≠ new then ⟨c.releaseTnl new, c.lastUser new, -1⟩
  else ⟨c, [], -1⟩

def tunnelMod (c : TunnelCtl) (env : ModEnv) (ifindex : Int) (local_ remote : In6Addr)
    (link : Int) : Except ModFault ModResult :=
  match c.getTnl ifindex with
  | none => .error .assertFailed
  | some old =>
      match ChainTable.get (calcAddrHash tnlBuckets) c.tnlKey c.tnlHash
          (addrKey .doubleAddr local_ remote) with
      | some new =>
          if new ≠ old then
            .ok ((c.setUsers new ((c.heap new).users + 1)).finishMod env old new)
          else .ok (c.finishMod env old old)
      | none =>
          if (c.heap old).users = 1 then
            let changed := c.changeTnl env old local_ remote link
            if changed.ret < 0 then
              match changed.ctl.createTnl env.created local_ remote link with
              | (c, none) => .ok ⟨c, changed.freed, -1⟩
              | (c, some new) =>
                  if old ∈ changed.freed then .error .useAfterFree
                  else .ok (c.finishMod env old new)
            else .ok (changed.ctl.finishMod env old old)
          -- a tunnel that others use is kept as it is
          else .ok (c.finishMod env old old)

/-- The list and the hash hold the same records, with end points that tell them
apart. -/
structure Indexed (c : TunnelCtl) : Prop where
  below : ∀ p ∈ c.tnlList, p < c.top
  paired : Paired (calcAddrHash tnlBuckets) c.tnlKey c.tnlList c.tnlHash

structure Listed (c : TunnelCtl) : Prop extends Indexed c where
  indices : ∀ p ∈ c.tnlList, ∀ q ∈ c.tnlList, (c.heap p).ifindex = (c.heap q).ifindex → p = q
  positive : ∀ p ∈ c.tnlList, 0 < (c.heap p).ifindex
  users : ∀ p ∈ c.tnlList, 1 ≤ (c.heap p).users

theorem Ok.indexed {c : TunnelCtl} (ok : Ok c) : Indexed c where
  below := ok.below
  paired := ok.paired

theorem Ok.listed {c : TunnelCtl} (ok : Ok c) : Listed c where
  toIndexed := ok.indexed
  indices := fun p member q member' =>
    ok.indices p q (ok.below p member) (ok.below q member')
  positive := fun p member => ok.positive p (ok.below p member)
  users := ok.users

def tunnelAt (c : TunnelCtl) (i : Int) : Option Mip6Tnl := (c.getTnl i).map c.heap

def totalUsers (c : TunnelCtl) : Int := (c.tnlList.map fun p => (c.heap p).users).sum

section Table
variable {c : TunnelCtl} {p : Ptr}

theorem tunnelAt_eq_some (listed : Listed c) {i : Int} {t : Mip6Tnl} :
    c.tunnelAt i = some t ↔ ∃ p ∈ c.tnlList, (c.heap p).ifindex = i ∧ c.heap p = t := by
  constructor
  · intro found
    obtain ⟨p, search, rfl⟩ := Option.map_eq_some_iff.mp found
    obtain ⟨member, index⟩ := getTnl_some search
    exact ⟨p, member, index, rfl⟩
  · intro linked
    obtain ⟨p, member, rfl, rfl⟩ := linked
    simp only [tunnelAt]
    cases search : c.getTnl (c.heap p).ifindex with
    | none =>
        have missing := List.find?_eq_none.mp search p member
        simp at missing
    | some q =>
        obtain ⟨member', index⟩ := getTnl_some search
        rw [listed.indices q member' p member index]
        rfl

theorem tunnelAt_of_mem (listed : Listed c) (member : p ∈ c.tnlList) :
    c.tunnelAt (c.heap p).ifindex = some (c.heap p) :=
  (tunnelAt_eq_some listed).mpr ⟨p, member, rfl, rfl⟩

theorem tunnelAt_congr {c' : TunnelCtl} (listed : Listed c) (listed' : Listed c') {i : Int}
    (same : ∀ t, (∃ p ∈ c'.tnlList, (c'.heap p).ifindex = i ∧ c'.heap p = t) ↔
      ∃ p ∈ c.tnlList, (c.heap p).ifindex = i ∧ c.heap p = t) : c'.tunnelAt i = c.tunnelAt i := by
  apply Option.ext
  intro t
  rw [tunnelAt_eq_some listed, tunnelAt_eq_some listed']
  exact same t

theorem sum_changed {f f' : Ptr → Int} {list : List Ptr} (nodup : list.Nodup) (member : p ∈ list)
    (others : ∀ q ∈ list, q ≠ p → f' q = f q) :
    (list.map f').sum = (list.map f).sum - f p + f' p := by
  have split := List.perm_cons_erase member
  have rest : (list.erase p).map f' = (list.erase p).map f := by
    refine List.map_congr_left fun q inRest => ?_
    obtain ⟨different, inList⟩ := (nodup.mem_erase_iff).mp inRest
    exact others q inList different
  rw [(split.map f').sum_eq, (split.map f).sum_eq, List.map_cons, List.map_cons, List.sum_cons,
    List.sum_cons, rest]
  omega

theorem sum_without (f : Ptr → Int) {list : List Ptr} (nodup : list.Nodup) (member : p ∈ list) :
    ((list.filter fun q => q ≠ p).map f).sum = (list.map f).sum - f p := by
  have filtered : list.filter (fun q => q ≠ p) = list.erase p := by
    rw [nodup.erase_eq_filter]
    refine List.filter_congr fun q _ => ?_
    by_cases same : q = p
    · simp [same]
    · simp [same]
  rw [filtered, ((List.perm_cons_erase member).map f).sum_eq, List.map_cons, List.sum_cons]
  omega

end Table

/-! ## What the steps do to the table -/

section Steps
variable {c : TunnelCtl} {p : Ptr}

theorem setUsers_heap_eq (c : TunnelCtl) (p q : Ptr) (u : Int) : (c.setUsers p u).heap q =
    if q = p then { c.heap p with users := u } else c.heap q := by
  by_cases same : q = p
  · subst same
    simp [setUsers]
  · simp [setUsers, same]

theorem Indexed.setUsers (indexed : Indexed c) (p : Ptr) (u : Int) :
    Indexed (c.setUsers p u) where
  below := indexed.below
  paired := by
    rw [setUsers_tnlKey]
    exact indexed.paired

theorem Listed.setUsers (listed : Listed c) (p : Ptr) {u : Int} (used : 1 ≤ u) :
    Listed (c.setUsers p u) where
  toIndexed := listed.toIndexed.setUsers p u
  indices := by
    intro q member q' member'
    rw [(setUsers_heap c p q u).2.2, (setUsers_heap c p q' u).2.2]
    exact listed.indices q member q' member'
  positive := by
    intro q member
    rw [(setUsers_heap c p q u).2.2]
    exact listed.positive q member
  users := by
    intro q member
    rw [setUsers_heap_eq]
    split
    · exact used
    · exact listed.users q member

/-- Changing a listed record, but not its index, changes what is at that index. -/
theorem tunnelAt_updated {c' : TunnelCtl} (listed : Listed c) (listed' : Listed c')
    (member : p ∈ c.tnlList) (sameList : c'.tnlList = c.tnlList) {t : Mip6Tnl}
    (here : c'.heap p = t) (index : t.ifindex = (c.heap p).ifindex)
    (others : ∀ q, q ≠ p → c'.heap q = c.heap q) (i : Int) :
    c'.tunnelAt i = if i = (c.heap p).ifindex then some t else c.tunnelAt i := by
  by_cases same : i = (c.heap p).ifindex
  · rw [if_pos same, tunnelAt_eq_some listed']
    exact ⟨p, by rw [sameList]; exact member, by rw [here, same, index], here⟩
  · rw [if_neg same]
    refine tunnelAt_congr listed listed' fun t' => ?_
    rw [sameList]
    constructor
    · intro found
      obtain ⟨q, inList, at_, value⟩ := found
      have different : q ≠ p := by
        intro isHere
        rw [isHere, here, index] at at_
        exact same at_.symm
      rw [others q different] at at_ value
      exact ⟨q, inList, at_, value⟩
    · intro found
      obtain ⟨q, inList, at_, value⟩ := found
      have different : q ≠ p := by
        intro isHere
        rw [isHere] at at_
        exact same at_.symm
      exact ⟨q, inList, by rw [others q different]; exact at_, by rw [others q different]; exact value⟩

theorem tunnelAt_setUsers (listed : Listed c) (member : p ∈ c.tnlList) {u : Int} (used : 1 ≤ u)
    (i : Int) : (c.setUsers p u).tunnelAt i =
      if i = (c.heap p).ifindex then some { c.heap p with users := u } else c.tunnelAt i := by
  have here : (c.setUsers p u).heap p = { c.heap p with users := u } := by
    rw [setUsers_heap_eq, if_pos rfl]
  refine tunnelAt_updated listed (listed.setUsers p used) member rfl here rfl ?_ i
  intro q different
  rw [setUsers_heap_eq, if_neg different]

theorem totalUsers_setUsers (indexed : Indexed c) (member : p ∈ c.tnlList) (u : Int) :
    (c.setUsers p u).totalUsers = c.totalUsers - (c.heap p).users + u := by
  have here : ((c.setUsers p u).heap p).users = u := by
    rw [setUsers_heap_eq, if_pos rfl]
  have others : ∀ q ∈ c.tnlList, q ≠ p → ((c.setUsers p u).heap q).users = (c.heap q).users := by
    intro q _ different
    rw [setUsers_heap_eq, if_neg different]
  have total := sum_changed indexed.paired.nodup member others
  rw [here] at total
  exact total

theorem releaseTnl_more (more : (c.heap p).users ≠ 1) :
    c.releaseTnl p = c.setUsers p ((c.heap p).users - 1) := by
  have left : ((c.setUsers p ((c.heap p).users - 1)).heap p).users = (c.heap p).users - 1 := by
    rw [setUsers_heap_eq, if_pos rfl]
  have notLast : ¬ (c.heap p).users - 1 = 0 := by omega
  simp only [releaseTnl, left, if_neg notLast]

theorem Indexed.withoutTnl (indexed : Indexed c) (member : p ∈ c.tnlList) :
    Indexed (c.withoutTnl p) where
  below := fun q inList => indexed.below q ((mem_withoutTnl q).mp inList).1
  paired := by
    rw [withoutTnl_tnlKey]
    exact indexed.paired.unlink member

theorem Indexed.releaseTnl (indexed : Indexed c) (member : p ∈ c.tnlList) :
    Indexed (c.releaseTnl p) := by
  by_cases last : (c.heap p).users = 1
  · rw [releaseTnl_eq last]
    exact indexed.withoutTnl member
  · rw [releaseTnl_more last]
    exact indexed.setUsers p _

theorem withoutTnl_heap {q : Ptr} (different : q ≠ p) : (c.withoutTnl p).heap q = c.heap q := by
  change (c.setUsers p 0).heap q = c.heap q
  rw [setUsers_heap_eq, if_neg different]

theorem Listed.withoutTnl (listed : Listed c) (member : p ∈ c.tnlList) :
    Listed (c.withoutTnl p) where
  toIndexed := listed.toIndexed.withoutTnl member
  indices := by
    intro q inList q' inList'
    obtain ⟨linked, different⟩ := (mem_withoutTnl q).mp inList
    obtain ⟨linked', different'⟩ := (mem_withoutTnl q').mp inList'
    rw [withoutTnl_heap different, withoutTnl_heap different']
    exact listed.indices q linked q' linked'
  positive := by
    intro q inList
    obtain ⟨linked, different⟩ := (mem_withoutTnl q).mp inList
    rw [withoutTnl_heap different]
    exact listed.positive q linked
  users := by
    intro q inList
    obtain ⟨linked, different⟩ := (mem_withoutTnl q).mp inList
    rw [withoutTnl_heap different]
    exact listed.users q linked

theorem tunnelAt_withoutTnl (listed : Listed c) (member : p ∈ c.tnlList) (i : Int) :
    (c.withoutTnl p).tunnelAt i = if i = (c.heap p).ifindex then none else c.tunnelAt i := by
  have removed := listed.withoutTnl member
  by_cases same : i = (c.heap p).ifindex
  · rw [if_pos same, Option.eq_none_iff_forall_ne_some]
    intro t found
    obtain ⟨q, inList, index, _⟩ := (tunnelAt_eq_some removed).mp found
    obtain ⟨linked, different⟩ := (mem_withoutTnl q).mp inList
    rw [withoutTnl_heap different, same] at index
    exact different (listed.indices q linked p member index)
  · rw [if_neg same]
    refine tunnelAt_congr listed removed fun t => ?_
    constructor
    · intro found
      obtain ⟨q, inList, index, value⟩ := found
      obtain ⟨linked, different⟩ := (mem_withoutTnl q).mp inList
      rw [withoutTnl_heap different] at index value
      exact ⟨q, linked, index, value⟩
    · intro found
      obtain ⟨q, linked, index, value⟩ := found
      have different : q ≠ p := by
        intro isHere
        rw [isHere] at index
        exact same index.symm
      refine ⟨q, (mem_withoutTnl q).mpr ⟨linked, different⟩, ?_, ?_⟩
      · rw [withoutTnl_heap different]
        exact index
      · rw [withoutTnl_heap different]
        exact value

theorem totalUsers_withoutTnl (indexed : Indexed c) (member : p ∈ c.tnlList) :
    (c.withoutTnl p).totalUsers = c.totalUsers - (c.heap p).users := by
  have kept : (c.tnlList.filter fun q => q ≠ p).map (fun q => ((c.withoutTnl p).heap q).users) =
      (c.tnlList.filter fun q => q ≠ p).map fun q => (c.heap q).users := by
    refine List.map_congr_left fun q inList => ?_
    rw [withoutTnl_heap (of_decide_eq_true (List.mem_filter.mp inList).2)]
  change ((c.tnlList.filter fun q => q ≠ p).map fun q => ((c.withoutTnl p).heap q).users).sum = _
  rw [kept]
  exact sum_without _ indexed.paired.nodup member

def oneLess (t : Mip6Tnl) : Option Mip6Tnl :=
  if t.users = 1 then none else some { t with users := t.users - 1 }

/-- `__tunnel_del` takes one user off a tunnel, and the tunnel out with its last. -/
theorem releaseTnl_spec (listed : Listed c) (member : p ∈ c.tnlList) :
    Listed (c.releaseTnl p) ∧
      (∀ i, (c.releaseTnl p).tunnelAt i =
        if i = (c.heap p).ifindex then oneLess (c.heap p) else c.tunnelAt i) ∧
      (c.releaseTnl p).totalUsers = c.totalUsers - 1 := by
  by_cases last : (c.heap p).users = 1
  · rw [releaseTnl_eq last, oneLess, if_pos last]
    refine ⟨listed.withoutTnl member, tunnelAt_withoutTnl listed member, ?_⟩
    rw [totalUsers_withoutTnl listed.toIndexed member, last]
  · have used := listed.users p member
    have more : 1 ≤ (c.heap p).users - 1 := by omega
    rw [releaseTnl_more last, oneLess, if_neg last]
    refine ⟨listed.setUsers p more, tunnelAt_setUsers listed member more, ?_⟩
    rw [totalUsers_setUsers listed.toIndexed member]
    omega

def withTnl (c : TunnelCtl) (tnl : Mip6Tnl) : TunnelCtl :=
  { c.withRecord tnl with
    tnlHash := append c.tnlHash
      (calcAddrHash tnlBuckets (addrKey .doubleAddr tnl.laddr tnl.raddr)) c.top
    tnlList := c.tnlList ++ [c.top] }

theorem withTnl_heap_top (c : TunnelCtl) (tnl : Mip6Tnl) : (c.withTnl tnl).heap c.top = tnl :=
  Function.update_self _ _ _

theorem withTnl_heap (indexed : Indexed c) (tnl : Mip6Tnl) {q : Ptr} (member : q ∈ c.tnlList) :
    (c.withTnl tnl).heap q = c.heap q := withRecord_heap c tnl (indexed.below q member)

theorem top_notMem (indexed : Indexed c) : c.top ∉ c.tnlList :=
  fun member => absurd (indexed.below _ member) (lt_irrefl _)

theorem withTnl_tnlKey_top (c : TunnelCtl) (tnl : Mip6Tnl) :
    (c.withTnl tnl).tnlKey c.top = addrKey .doubleAddr tnl.laddr tnl.raddr := by
  simp only [tnlKey, withTnl_heap_top]

def Absent (c : TunnelCtl) (l r : In6Addr) : Prop :=
  ∀ q ∈ c.tnlList, c.tnlKey q ≠ addrKey .doubleAddr l r

theorem Indexed.recorded (indexed : Indexed c) (tnl : Mip6Tnl) :
    Paired (calcAddrHash tnlBuckets) (c.withTnl tnl).tnlKey c.tnlList c.tnlHash :=
  indexed.paired.congr fun q member => by
    simp only [tnlKey, withTnl_heap indexed tnl member]

theorem Absent.fresh {tnl : Mip6Tnl} (absent : Absent c tnl.laddr tnl.raddr) (indexed : Indexed c) :
    ∀ q ∈ c.tnlList, (c.withTnl tnl).tnlKey q ≠ (c.withTnl tnl).tnlKey c.top := by
  intro q member
  rw [withTnl_tnlKey_top]
  simp only [tnlKey, withTnl_heap indexed tnl member]
  exact absent q member

theorem Indexed.withTnl (indexed : Indexed c) {tnl : Mip6Tnl}
    (absent : Absent c tnl.laddr tnl.raddr) : Indexed (c.withTnl tnl) where
  below := by
    intro q member
    rcases List.mem_append.mp member with old | new
    · exact Nat.lt_succ_of_lt (indexed.below q old)
    · rw [List.mem_singleton.mp new]
      exact Nat.lt_succ_self _
  paired := by
    have linked := (indexed.recorded tnl).link (top_notMem indexed) (absent.fresh indexed)
    rw [withTnl_tnlKey_top] at linked
    exact linked

def NewIndex (c : TunnelCtl) (i : Int) : Prop := 0 < i ∧ ∀ q ∈ c.tnlList, (c.heap q).ifindex ≠ i

theorem mem_withTnl (c : TunnelCtl) (tnl : Mip6Tnl) (q : Ptr) :
    q ∈ (c.withTnl tnl).tnlList ↔ q ∈ c.tnlList ∨ q = c.top := by
  simp [TunnelCtl.withTnl]

theorem Listed.withTnl (listed : Listed c) {tnl : Mip6Tnl}
    (absent : Absent c tnl.laddr tnl.raddr) (new : NewIndex c tnl.ifindex)
    (used : 1 ≤ tnl.users) : Listed (c.withTnl tnl) where
  toIndexed := listed.toIndexed.withTnl absent
  indices := by
    intro q member q' member' same
    rcases (mem_withTnl c tnl q).mp member with old | rfl
    · rcases (mem_withTnl c tnl q').mp member' with old' | rfl
      · rw [withTnl_heap listed.toIndexed tnl old, withTnl_heap listed.toIndexed tnl old'] at same
        exact listed.indices q old q' old' same
      · rw [withTnl_heap listed.toIndexed tnl old, withTnl_heap_top] at same
        exact absurd same (new.2 q old)
    · rcases (mem_withTnl c tnl q').mp member' with old' | rfl
      · rw [withTnl_heap listed.toIndexed tnl old', withTnl_heap_top] at same
        exact absurd same.symm (new.2 q' old')
      · rfl
  positive := by
    intro q member
    rcases (mem_withTnl c tnl q).mp member with old | rfl
    · rw [withTnl_heap listed.toIndexed tnl old]
      exact listed.positive q old
    · rw [withTnl_heap_top]
      exact new.1
  users := by
    intro q member
    rcases (mem_withTnl c tnl q).mp member with old | rfl
    · rw [withTnl_heap listed.toIndexed tnl old]
      exact listed.users q old
    · rw [withTnl_heap_top]
      exact used

theorem tunnelAt_withTnl (listed : Listed c) {tnl : Mip6Tnl}
    (absent : Absent c tnl.laddr tnl.raddr) (new : NewIndex c tnl.ifindex) (used : 1 ≤ tnl.users)
    (i : Int) :
    (c.withTnl tnl).tunnelAt i = if i = tnl.ifindex then some tnl else c.tunnelAt i := by
  have grown := listed.withTnl absent new used
  by_cases same : i = tnl.ifindex
  · rw [if_pos same, tunnelAt_eq_some grown]
    refine ⟨c.top, (mem_withTnl c tnl c.top).mpr (.inr rfl), ?_, withTnl_heap_top c tnl⟩
    rw [withTnl_heap_top, same]
  · rw [if_neg same]
    refine tunnelAt_congr listed grown fun t => ?_
    constructor
    · intro found
      obtain ⟨q, member, index, value⟩ := found
      rcases (mem_withTnl c tnl q).mp member with old | rfl
      · rw [withTnl_heap listed.toIndexed tnl old] at index value
        exact ⟨q, old, index, value⟩
      · rw [withTnl_heap_top] at index
        exact absurd index.symm same
    · intro found
      obtain ⟨q, old, index, value⟩ := found
      refine ⟨q, (mem_withTnl c tnl q).mpr (.inl old), ?_, ?_⟩
      · rw [withTnl_heap listed.toIndexed tnl old]
        exact index
      · rw [withTnl_heap listed.toIndexed tnl old]
        exact value

theorem totalUsers_withTnl (indexed : Indexed c) (tnl : Mip6Tnl) :
    (c.withTnl tnl).totalUsers = c.totalUsers + tnl.users := by
  have kept : c.tnlList.map (fun q => ((c.withTnl tnl).heap q).users) =
      c.tnlList.map fun q => (c.heap q).users :=
    List.map_congr_left fun q member => by rw [withTnl_heap indexed tnl member]
  change ((c.tnlList ++ [c.top]).map fun q => ((c.withTnl tnl).heap q).users).sum = _
  rw [List.map_append, List.sum_append, kept, List.map_singleton, List.sum_singleton,
    withTnl_heap_top]
  rfl

theorem withTnl_undone (indexed : Indexed c) {tnl : Mip6Tnl}
    (absent : Absent c tnl.laddr tnl.raddr) :
    ((c.withTnl tnl).withoutTnl c.top).tnlList = c.tnlList ∧
      ((c.withTnl tnl).withoutTnl c.top).tnlHash = c.tnlHash := by
  refine ⟨Paired.filter_link (top_notMem indexed), ?_⟩
  have restored := (indexed.recorded tnl).erase_link (absent.fresh indexed)
  change erase (calcAddrHash tnlBuckets) (c.withTnl tnl).tnlKey (append c.tnlHash
    (calcAddrHash tnlBuckets (addrKey .doubleAddr tnl.laddr tnl.raddr)) c.top)
      ((c.withTnl tnl).tnlKey c.top) = c.tnlHash
  rw [← withTnl_tnlKey_top]
  exact restored

/-- A table with the same list, the same hash and the same listed records. -/
structure Unmoved (c c' : TunnelCtl) : Prop where
  list : c'.tnlList = c.tnlList
  hash : c'.tnlHash = c.tnlHash
  records : ∀ p ∈ c.tnlList, c'.heap p = c.heap p

theorem createTnl_cases (indexed : Indexed c) {l r : In6Addr} (absent : Absent c l r)
    (env : TunnelEnv) (link : Int) :
    (∃ i, env.ifindex = some i ∧
        c.createTnl env l r link = (c.withTnl ⟨l, r, link, i, 1⟩, some c.top)) ∨
      ∃ c', c.createTnl env l r link = (c', none) ∧ Unmoved c c' ∧ Indexed c' := by
  cases created : env.ifindex with
  | none =>
      exact .inr ⟨c, by simp only [createTnl, created], ⟨rfl, rfl, fun _ _ => rfl⟩, indexed⟩
  | some i =>
      cases node : env.nodeAlloc with
      | false =>
          refine .inr ⟨c.withRecord ⟨l, r, link, i, 1⟩, ?_, ⟨rfl, rfl, fun p member =>
            withRecord_heap c _ (indexed.below p member)⟩, ?_, indexed.recorded _⟩
          · simp only [createTnl, created, node, tableAdd]
            rfl
          · exact fun p member => Nat.lt_succ_of_lt (indexed.below p member)
      | true =>
          refine .inl ⟨i, rfl, ?_⟩
          have apart : ∀ q ∈ c.tnlList, (c.withRecord ⟨l, r, link, i, 1⟩).tnlKey q ≠
              (c.withRecord ⟨l, r, link, i, 1⟩).tnlKey c.top :=
            @Absent.fresh c ⟨l, r, link, i, 1⟩ absent indexed
          have added : tableAdd (calcAddrHash tnlBuckets)
              (c.withRecord ⟨l, r, link, i, 1⟩).tnlKey c.tnlHash c.top true = _ :=
            tableAdd_new fun member => by
              obtain ⟨q, inHash, same⟩ := List.mem_map.mp member
              exact apart q (indexed.paired.mem_iff.mp inHash) same
          have topKey : (c.withRecord ⟨l, r, link, i, 1⟩).tnlKey c.top = addrKey .doubleAddr l r :=
            withTnl_tnlKey_top c ⟨l, r, link, i, 1⟩
          have sameHash : (c.withRecord ⟨l, r, link, i, 1⟩).tnlHash = c.tnlHash := rfl
          simp only [createTnl]
          rw [created, node]
          simp only [sameHash, added]
          rw [if_neg (lt_irrefl _), topKey]
          rfl

/-- The table after `SIOCCHGTUNNEL`, with the record hashed under its new ends. -/
def changedTnl (c : TunnelCtl) (p : Ptr) (l r : In6Addr) (link : Int) : TunnelCtl :=
  { c.withEnds p l r link with
    tnlHash := append (erase (calcAddrHash tnlBuckets) c.tnlKey c.tnlHash (c.tnlKey p))
      (calcAddrHash tnlBuckets (addrKey .doubleAddr l r)) p }

section Change
variable {l r : In6Addr} {link : Int}

theorem changedTnl_heap (q : Ptr) : (c.changedTnl p l r link).heap q =
    if q = p then { c.heap p with laddr := l, raddr := r, link := link } else c.heap q := by
  by_cases same : q = p
  · subst same
    simp [changedTnl, withEnds]
  · simp [changedTnl, withEnds, same]

theorem withEnds_tnlKey : (c.withEnds p l r link).tnlKey p = addrKey .doubleAddr l r := by
  simp [tnlKey, withEnds]

theorem withEnds_tnlKey_other {q : Ptr} (different : q ≠ p) :
    (c.withEnds p l r link).tnlKey q = c.tnlKey q := by
  simp [tnlKey, withEnds, Function.update_of_ne different]

theorem Indexed.changedTnl (indexed : Indexed c) (member : p ∈ c.tnlList) (absent : Absent c l r) :
    Indexed (c.changedTnl p l r link) where
  below := indexed.below
  paired := by
    have moved := @Paired.rekey _ _ _ _ _ (c.withEnds p l r link).tnlKey _ _ _ _ indexed.paired
      p member (fun q _ different => withEnds_tnlKey_other different) fun q inList _ => by
        rw [withEnds_tnlKey]
        exact absent q inList
    rw [withEnds_tnlKey] at moved
    exact moved

theorem Listed.changedTnl (listed : Listed c) (member : p ∈ c.tnlList) (absent : Absent c l r) :
    Listed (c.changedTnl p l r link) := by
  have kept : ∀ q, ((c.changedTnl p l r link).heap q).ifindex = (c.heap q).ifindex ∧
      ((c.changedTnl p l r link).heap q).users = (c.heap q).users := by
    intro q
    rw [changedTnl_heap]
    split
    · rename_i same
      exact ⟨by rw [same], by rw [same]⟩
    · exact ⟨rfl, rfl⟩
  refine ⟨listed.toIndexed.changedTnl member absent, ?_, ?_, ?_⟩
  · intro q inList q' inList'
    rw [(kept q).1, (kept q').1]
    exact listed.indices q inList q' inList'
  · intro q inList
    rw [(kept q).1]
    exact listed.positive q inList
  · intro q inList
    rw [(kept q).2]
    exact listed.users q inList

theorem tunnelAt_changedTnl (listed : Listed c) (member : p ∈ c.tnlList) (absent : Absent c l r)
    (i : Int) : (c.changedTnl p l r link).tunnelAt i = if i = (c.heap p).ifindex then
      some { c.heap p with laddr := l, raddr := r, link := link } else c.tunnelAt i := by
  have here := @changedTnl_heap c p l r link p
  rw [if_pos rfl] at here
  refine tunnelAt_updated listed (listed.changedTnl member absent) member rfl here rfl ?_ i
  intro q different
  rw [changedTnl_heap, if_neg different]

theorem totalUsers_changedTnl : (c.changedTnl p l r link).totalUsers = c.totalUsers := by
  have kept : ∀ q, ((c.changedTnl p l r link).heap q).users = (c.heap q).users := by
    intro q
    rw [changedTnl_heap]
    split
    · rename_i same
      rw [same]
    · rfl
  change (c.tnlList.map fun q => ((c.changedTnl p l r link).heap q).users).sum = _
  simp only [kept]
  rfl

theorem changeTnl_done (indexed : Indexed c) (member : p ∈ c.tnlList) (absent : Absent c l r)
    {env : ModEnv} (changed : env.changed = true) (node : env.node = true) :
    c.changeTnl env p l r link = ⟨c.changedTnl p l r link, [], (c.heap p).ifindex⟩ := by
  have unlinked := indexed.paired.unlink member
  have fresh : (c.withEnds p l r link).tnlKey p ∉
      (toList (erase (calcAddrHash tnlBuckets) c.tnlKey c.tnlHash (c.tnlKey p))).map
        (c.withEnds p l r link).tnlKey := by
    intro hashed
    obtain ⟨q, inHash, same⟩ := List.mem_map.mp hashed
    obtain ⟨inList, other⟩ := List.mem_filter.mp (unlinked.mem_iff.mp inHash)
    rw [withEnds_tnlKey, withEnds_tnlKey_other (of_decide_eq_true other)] at same
    exact absent q inList same
  have index : ((c.withEnds p l r link).heap p).ifindex = (c.heap p).ifindex := by
    simp [withEnds]
  simp only [changeTnl]
  rw [changed, node, if_pos rfl, tableAdd_new fresh, if_neg (lt_irrefl _), index, withEnds_tnlKey]
  rfl

theorem changeTnl_refused {env : ModEnv} (refused : env.changed = false) :
    c.changeTnl env p l r link = ⟨c, [], -1⟩ := by
  simp only [changeTnl]
  rw [refused, if_neg Bool.false_ne_true]

theorem changeTnl_freed {env : ModEnv} (changed : env.changed = true) (node : env.node = false) :
    ∃ c', c.changeTnl env p l r link = ⟨c', [p], -1⟩ ∧ c'.tnlList = c.tnlList := by
  simp only [changeTnl]
  rw [changed, node, if_pos rfl]
  exact ⟨_, rfl, rfl⟩

end Change

end Steps

/-! ## The contract -/

/-- The caller's reference to the tunnel `ifindex` has become one to the tunnel
`ret`, which is between the end points; a tunnel that lost its last user is out. -/
structure Moved (c c' : TunnelCtl) (ifindex ret : Int) (l r : In6Addr) : Prop where
  listed : Listed c'
  ends : ∃ t, c'.tunnelAt ret = some t ∧ t.laddr = l ∧ t.raddr = r
  stays : ret = ifindex → (c'.tunnelAt ret).map Mip6Tnl.users = (c.tunnelAt ret).map Mip6Tnl.users
  leaves : ret ≠ ifindex → c'.tunnelAt ifindex = (c.tunnelAt ifindex).bind oneLess
  joins : ret ≠ ifindex → (c'.tunnelAt ret).map Mip6Tnl.users =
    some (((c.tunnelAt ret).map Mip6Tnl.users).getD 0 + 1)
  others : ∀ i, i ≠ ifindex → i ≠ ret → c'.tunnelAt i = c.tunnelAt i
  total : c'.totalUsers = c.totalUsers

/-- An index means that the reference has moved, a negative result that nothing
has; nothing that is freed stays linked. -/
structure Contract (c : TunnelCtl) (ifindex : Int) (l r : In6Addr) (result : ModResult) : Prop where
  moved : 0 ≤ result.ret → Moved c result.ctl ifindex result.ret l r
  unmoved : result.ret < 0 → Unmoved c result.ctl
  unlinked : ∀ p ∈ result.freed, p ∉ result.ctl.tnlList ∧ p ∉ toList result.ctl.tnlHash

theorem Unmoved.refl (c : TunnelCtl) : Unmoved c c := ⟨rfl, rfl, fun _ _ => rfl⟩

theorem contract_refused {c : TunnelCtl} {ifindex : Int} {l r : In6Addr} {c' : TunnelCtl}
    (unmoved : Unmoved c c') {freed : List Ptr}
    (unlinked : ∀ p ∈ freed, p ∉ c'.tnlList ∧ p ∉ toList c'.tnlHash) :
    Contract c ifindex l r ⟨c', freed, -1⟩ :=
  ⟨fun index => absurd index (by simp), fun _ => unmoved, unlinked⟩

section Finish
variable {c c' : TunnelCtl} {old new : Ptr} {l r : In6Addr}

theorem lastUser_unlinked (indexed : Indexed c) {p : Ptr} (member : p ∈ c.tnlList) :
    ∀ q ∈ c.lastUser p, q ∉ (c.releaseTnl p).tnlList ∧ q ∉ toList (c.releaseTnl p).tnlHash := by
  intro q freed
  have released := indexed.releaseTnl member
  simp only [lastUser] at freed
  split at freed
  · rename_i last
    rw [List.mem_singleton.mp freed, released.paired.mem_iff, and_self, releaseTnl_eq last,
      mem_withoutTnl]
    exact fun linked => linked.2 rfl
  · simp at freed

/-- The tunnel `new` of the second table has one user more than in the first,
where it need not exist. -/
structure Joined (c c' : TunnelCtl) (new : Ptr) (l r : In6Addr) : Prop where
  listed : Listed c'
  member : new ∈ c'.tnlList
  ends : (c'.heap new).laddr = l ∧ (c'.heap new).raddr = r
  users : (c'.heap new).users =
    ((c.tunnelAt (c'.heap new).ifindex).map Mip6Tnl.users).getD 0 + 1
  others : ∀ i, i ≠ (c'.heap new).ifindex → c'.tunnelAt i = c.tunnelAt i
  total : c'.totalUsers = c.totalUsers + 1

theorem Joined.moved (joined : Joined c c' new l r) (member : old ∈ c'.tnlList)
    (different : old ≠ new) (kept : c'.heap old = c.heap old) :
    Moved c (c'.releaseTnl old) (c.heap old).ifindex (c'.heap new).ifindex l r := by
  obtain ⟨released, at_, total⟩ := releaseTnl_spec joined.listed member
  have apart : (c'.heap new).ifindex ≠ (c.heap old).ifindex := by
    intro same
    rw [← kept] at same
    exact different (joined.listed.indices old member new joined.member same.symm)
  have here : (c'.releaseTnl old).tunnelAt (c'.heap new).ifindex = some (c'.heap new) := by
    rw [at_, kept, if_neg apart, tunnelAt_of_mem joined.listed joined.member]
  have before : c.tunnelAt (c.heap old).ifindex = some (c.heap old) := by
    rw [← joined.others _ (Ne.symm apart), ← kept, tunnelAt_of_mem joined.listed member]
  constructor
  · exact released
  · exact ⟨c'.heap new, here, joined.ends⟩
  · exact fun same => absurd same apart
  · intro _
    rw [at_, kept, if_pos rfl, before]
    rfl
  · intro _
    rw [here, Option.map_some, joined.users]
  · intro i notOld notNew
    rw [at_, kept, if_neg notOld, joined.others i notNew]
  · rw [total, joined.total]
    omega

theorem finishMod_joined (joined : Joined c c' new l r) {env : ModEnv} (accepts : env.ext = true)
    (member : old ∈ c'.tnlList) (different : old ≠ new) (kept : c'.heap old = c.heap old) :
    Contract c (c.heap old).ifindex l r (c'.finishMod env old new) := by
  simp only [finishMod]
  rw [accepts, if_pos rfl, if_pos different]
  have index := joined.listed.positive new joined.member
  refine ⟨fun _ => joined.moved member different kept, ?_,
    lastUser_unlinked joined.listed.toIndexed member⟩
  intro negative
  change (c'.heap new).ifindex < 0 at negative
  omega

theorem finishMod_undone {env : ModEnv} (refuses : env.ext = false) (different : old ≠ new)
    (indexed : Indexed c') (member : new ∈ c'.tnlList) {ifindex : Int}
    (undone : Unmoved c (c'.releaseTnl new)) :
    Contract c ifindex l r (c'.finishMod env old new) := by
  simp only [finishMod]
  rw [refuses, if_neg Bool.false_ne_true, if_pos different]
  exact contract_refused undone (lastUser_unlinked indexed member)

theorem finishMod_same (env : ModEnv) (c' : TunnelCtl) (p : Ptr) : c'.finishMod env p p =
    ⟨c', [], if env.ext then (c'.heap p).ifindex else -1⟩ := by
  simp only [finishMod, ne_eq, not_true_eq_false, if_false]
  split <;> rfl

end Finish

section Cases
variable {c : TunnelCtl} {old new : Ptr} {l r : In6Addr} {env : ModEnv}

theorem ends_of_key {p : Ptr} (same : c.tnlKey p = addrKey .doubleAddr l r) :
    (c.heap p).laddr = l ∧ (c.heap p).raddr = r := (tnlKey_eq_iff c p l r).mp same

theorem joined_existing (listed : Listed c) (member : new ∈ c.tnlList)
    (ends : (c.heap new).laddr = l ∧ (c.heap new).raddr = r) :
    Joined c (c.setUsers new ((c.heap new).users + 1)) new l r := by
  have used := listed.users new member
  have more : 1 ≤ (c.heap new).users + 1 := by omega
  have here : (c.setUsers new ((c.heap new).users + 1)).heap new =
      { c.heap new with users := (c.heap new).users + 1 } := by
    rw [setUsers_heap_eq, if_pos rfl]
  constructor
  · exact listed.setUsers new more
  · exact member
  · rw [here]
    exact ends
  · rw [here, tunnelAt_of_mem listed member]
    rfl
  · intro i other
    rw [here] at other
    rw [tunnelAt_setUsers listed member more, if_neg other]
  · rw [totalUsers_setUsers listed.toIndexed member]
    omega

theorem joined_created (listed : Listed c) (absent : Absent c l r) {i : Int}
    (newIndex : NewIndex c i) (link : Int) :
    Joined c (c.withTnl ⟨l, r, link, i, 1⟩) c.top l r := by
  have unknown : c.tunnelAt i = none := by
    rw [Option.eq_none_iff_forall_ne_some]
    intro t found
    obtain ⟨q, member, index, _⟩ := (tunnelAt_eq_some listed).mp found
    exact newIndex.2 q member index
  have at_ := @tunnelAt_withTnl c listed ⟨l, r, link, i, 1⟩ absent newIndex (le_refl 1)
  constructor
  · exact @Listed.withTnl c listed ⟨l, r, link, i, 1⟩ absent newIndex (le_refl 1)
  · exact (mem_withTnl c _ c.top).mpr (.inr rfl)
  · rw [withTnl_heap_top]
    exact ⟨rfl, rfl⟩
  · rw [withTnl_heap_top, unknown]
    rfl
  · intro j other
    rw [withTnl_heap_top] at other
    rw [at_, if_neg other]
  · exact totalUsers_withTnl listed.toIndexed _

theorem contract_existing (listed : Listed c) (oldMember : old ∈ c.tnlList)
    (member : new ∈ c.tnlList) (ends : (c.heap new).laddr = l ∧ (c.heap new).raddr = r)
    (different : old ≠ new) : Contract c (c.heap old).ifindex l r
      ((c.setUsers new ((c.heap new).users + 1)).finishMod env old new) := by
  have kept : (c.setUsers new ((c.heap new).users + 1)).heap old = c.heap old := by
    rw [setUsers_heap_eq, if_neg different]
  cases accepts : env.ext with
  | true =>
      exact finishMod_joined (joined_existing listed member ends) accepts oldMember different kept
  | false =>
      have used := listed.users new member
      have joinedUsers : ((c.setUsers new ((c.heap new).users + 1)).heap new).users =
          (c.heap new).users + 1 := by
        rw [setUsers_heap_eq, if_pos rfl]
      refine finishMod_undone accepts different (listed.toIndexed.setUsers new _) member ?_
      rw [releaseTnl_more (by rw [joinedUsers]; omega)]
      refine ⟨rfl, rfl, fun q _ => ?_⟩
      rw [setUsers_heap_eq, joinedUsers]
      by_cases same : q = new
      · rw [if_pos same, setUsers_heap_eq, if_pos rfl, same]
        simp only [add_sub_cancel_right]
      · rw [if_neg same, setUsers_heap_eq, if_neg same]

theorem contract_created (listed : Listed c) (oldMember : old ∈ c.tnlList) (absent : Absent c l r)
    {i : Int} (newIndex : NewIndex c i) (link : Int) : Contract c (c.heap old).ifindex l r
      ((c.withTnl ⟨l, r, link, i, 1⟩).finishMod env old c.top) := by
  have joined := joined_created listed absent newIndex link
  have different : old ≠ c.top := fun same => top_notMem listed.toIndexed (same ▸ oldMember)
  have kept := withTnl_heap listed.toIndexed ⟨l, r, link, i, 1⟩ oldMember
  have linked := (mem_withTnl c ⟨l, r, link, i, 1⟩ old).mpr (.inl oldMember)
  cases accepts : env.ext with
  | true => exact finishMod_joined joined accepts linked different kept
  | false =>
      refine finishMod_undone accepts different joined.listed.toIndexed joined.member ?_
      rw [releaseTnl_eq (by rw [withTnl_heap_top])]
      obtain ⟨list, hash⟩ := @withTnl_undone c listed.toIndexed ⟨l, r, link, i, 1⟩ absent
      refine ⟨list, hash, fun q member => ?_⟩
      have other : q ≠ c.top := fun same => top_notMem listed.toIndexed (same ▸ member)
      rw [withoutTnl_heap other, withTnl_heap listed.toIndexed _ member]

theorem contract_replaced (listed : Listed c) (oldMember : old ∈ c.tnlList) (absent : Absent c l r)
    (fresh : ∀ i ∈ env.created.ifindex, NewIndex c i) {link : Int} :
    ∃ result, (match c.createTnl env.created l r link with
      | (c', none) => Except.ok (ModResult.mk c' [] (-1))
      | (c', some new) =>
          if old ∈ ([] : List Ptr) then .error ModFault.useAfterFree
          else .ok (c'.finishMod env old new)) = .ok result ∧
      Contract c (c.heap old).ifindex l r result := by
  rcases createTnl_cases listed.toIndexed absent env.created link with
    ⟨i, created, run⟩ | ⟨c', run, unmoved, _⟩
  · rw [run]
    refine ⟨_, if_neg (by simp), ?_⟩
    exact contract_created listed oldMember absent (fresh i created) link
  · rw [run]
    exact ⟨⟨c', [], -1⟩, rfl, contract_refused unmoved (by simp)⟩

theorem contract_changed (listed : Listed c) (member : old ∈ c.tnlList) (absent : Absent c l r)
    (accepts : env.ext = true) (link : Int) : Contract c (c.heap old).ifindex l r
      ((c.changedTnl old l r link).finishMod env old old) := by
  have here := @changedTnl_heap c old l r link old
  rw [if_pos rfl] at here
  have index : ((c.changedTnl old l r link).heap old).ifindex = (c.heap old).ifindex := by
    rw [here]
  have at_ := @tunnelAt_changedTnl c old l r link listed member absent
  rw [finishMod_same, accepts, if_pos rfl, index]
  have positive := listed.positive old member
  refine ⟨fun _ => ?_, fun negative => ?_, by simp⟩
  · constructor
    · exact listed.changedTnl member absent
    · exact ⟨_, (at_ _).trans (if_pos rfl), rfl, rfl⟩
    · intro _
      rw [at_, if_pos rfl, tunnelAt_of_mem listed member]
      rfl
    · exact fun other => absurd rfl other
    · exact fun other => absurd rfl other
    · intro i other _
      rw [at_, if_neg other]
    · exact totalUsers_changedTnl
  · change (c.heap old).ifindex < 0 at negative
    omega

theorem contract_kept (listed : Listed c) (member : old ∈ c.tnlList)
    (ends : (c.heap old).laddr = l ∧ (c.heap old).raddr = r) :
    Contract c (c.heap old).ifindex l r (c.finishMod env old old) := by
  rw [finishMod_same]
  have positive := listed.positive old member
  refine ⟨fun index => ?_, fun _ => Unmoved.refl c, by simp⟩
  cases accepts : env.ext with
  | false =>
      rw [accepts] at index
      exact absurd index (by simp)
  | true =>
      constructor
      · exact listed
      · exact ⟨c.heap old, tunnelAt_of_mem listed member, ends⟩
      · exact fun _ => rfl
      · exact fun other => absurd rfl other
      · exact fun other => absurd rfl other
      · exact fun _ _ _ => rfl
      · rfl

/-- A shared tunnel that is kept is not moved, whatever the callback says. -/
theorem contract_shared_iff (listed : Listed c) (member : old ∈ c.tnlList)
    (absent : Absent c l r) :
    Contract c (c.heap old).ifindex l r (c.finishMod env old old) ↔ env.ext = false := by
  rw [finishMod_same]
  constructor
  · intro contract
    cases accepts : env.ext with
    | false => rfl
    | true =>
        rw [accepts, if_pos rfl] at contract
        have positive := listed.positive old member
        obtain ⟨t, found, ends⟩ := (contract.moved (by simp only; omega)).ends
        rw [tunnelAt_of_mem listed member] at found
        cases found
        exact absurd ((tnlKey_eq_iff c old l r).mpr ends) (absent old member)
  · intro refuses
    rw [refuses, if_neg Bool.false_ne_true]
    exact contract_refused (Unmoved.refl c) (by simp)

theorem contract_changed_refused (member : old ∈ c.tnlList) (absent : Absent c l r)
    (refuses : env.ext = false) (link : Int) : ¬ Contract c (c.heap old).ifindex l r
      ((c.changedTnl old l r link).finishMod env old old) := by
  intro contract
  rw [finishMod_same, refuses, if_neg Bool.false_ne_true] at contract
  have same := (contract.unmoved (by simp)).records old member
  have here := @changedTnl_heap c old l r link old
  rw [if_pos rfl] at here
  have ends : (c.heap old).laddr = l ∧ (c.heap old).raddr = r := by
    rw [← same, here]
    exact ⟨rfl, rfl⟩
  exact absent old member ((tnlKey_eq_iff c old l r).mpr ends)

end Cases

/-- The tunnel exists between the new end points already; or it has no other user,
and the kernel refuses to change it or else it is hashed again and the callback
accepts; or it is shared and the callback refuses. -/
def Served (c : TunnelCtl) (env : ModEnv) (old : Ptr) (l r : In6Addr) : Prop :=
  ¬ Absent c l r ∨
    ((c.heap old).users = 1 ∧ (env.changed = true → env.node = true ∧ env.ext = true)) ∨
    ((c.heap old).users ≠ 1 ∧ env.ext = false)

/-- `tunnel_mod` meets its contract. -/
def Honoured (c : TunnelCtl) (env : ModEnv) (ifindex : Int) (l r : In6Addr) (link : Int) : Prop :=
  ∃ result, c.tunnelMod env ifindex l r link = .ok result ∧ Contract c ifindex l r result

section Mod
variable {c : TunnelCtl} {old : Ptr} {l r : In6Addr} {env : ModEnv} {link : Int}

theorem honoured_present (listed : Listed c) {new : Ptr}
    (found : c.getTnl (c.heap old).ifindex = some old)
    (hashed : ChainTable.get (calcAddrHash tnlBuckets) c.tnlKey c.tnlHash
      (addrKey .doubleAddr l r) = some new) : Honoured c env (c.heap old).ifindex l r link := by
  have member := (getTnl_some found).1
  obtain ⟨newMember, key⟩ := listed.paired.get_eq_some.mp hashed
  by_cases same : new = old
  · subst same
    refine ⟨c.finishMod env new new, ?_, contract_kept listed member (ends_of_key key)⟩
    simp only [tunnelMod, found, hashed, ne_eq, not_true_eq_false, if_false]
  · refine ⟨(c.setUsers new ((c.heap new).users + 1)).finishMod env old new, ?_,
      contract_existing listed member newMember (ends_of_key key) (Ne.symm same)⟩
    simp only [tunnelMod, found, hashed, ne_eq, same, not_false_eq_true, if_true]

theorem honoured_single_iff (listed : Listed c) (found : c.getTnl (c.heap old).ifindex = some old)
    (absent : Absent c l r) (fresh : ∀ i ∈ env.created.ifindex, NewIndex c i)
    (single : (c.heap old).users = 1) : Honoured c env (c.heap old).ifindex l r link ↔
      (env.changed = true → env.node = true ∧ env.ext = true) := by
  have member := (getTnl_some found).1
  have missing := listed.paired.get_eq_none.mpr absent
  have positive := listed.positive old member
  simp only [Honoured, tunnelMod, found, missing, if_pos single]
  cases changed : env.changed with
  | false =>
      rw [changeTnl_refused changed]
      simp only [Bool.false_eq_true, false_implies, iff_true]
      exact contract_replaced listed member absent fresh
  | true =>
      cases node : env.node with
      | false =>
          obtain ⟨c', run, sameList⟩ := @changeTnl_freed c old l r link env changed node
          rw [run]
          simp only [Bool.false_eq_true, false_and, imp_false, not_true_eq_false, iff_false]
          intro honoured
          obtain ⟨result, ended, contract⟩ := honoured
          simp only [Int.reduceNeg, Int.reduceLT, if_true, List.mem_singleton] at ended
          split at ended
          · rename_i c'' created
            cases ended
            refine (contract.unlinked old (by simp)).1 ?_
            have unmoved := contract.unmoved (by simp)
            rw [unmoved.list]
            exact member
          · cases ended
      | true =>
          rw [changeTnl_done listed.toIndexed member absent changed node]
          have kept : ¬ (c.heap old).ifindex < 0 := by omega
          simp only [if_neg kept, true_and, true_implies]
          constructor
          · intro honoured
            obtain ⟨result, ended, contract⟩ := honoured
            cases ended
            cases accepts : env.ext with
            | true => rfl
            | false => exact absurd contract (contract_changed_refused member absent accepts link)
          · intro accepts
            exact ⟨_, rfl, contract_changed listed member absent accepts link⟩

theorem honoured_shared_iff (listed : Listed c) (found : c.getTnl (c.heap old).ifindex = some old)
    (absent : Absent c l r) (shared : (c.heap old).users ≠ 1) :
    Honoured c env (c.heap old).ifindex l r link ↔ env.ext = false := by
  have member := (getTnl_some found).1
  have missing := listed.paired.get_eq_none.mpr absent
  have ends := @contract_shared_iff c old l r env listed member absent
  simp only [Honoured, tunnelMod, found, missing, if_neg shared]
  rw [← ends]
  constructor
  · intro honoured
    obtain ⟨result, ended, contract⟩ := honoured
    cases ended
    exact contract
  · intro contract
    exact ⟨_, rfl, contract⟩

end Mod

/-- On every table and whatever is answered, moving a tunnel that exists meets the
contract exactly when the move is served. -/
theorem tunnel_mod_contract_iff {c : TunnelCtl} (listed : Listed c) {env : ModEnv}
    (fresh : ∀ i ∈ env.created.ifindex, NewIndex c i) {ifindex : Int} {old : Ptr}
    (found : c.getTnl ifindex = some old) (l r : In6Addr) (link : Int) :
    Honoured c env ifindex l r link ↔ Served c env old l r := by
  obtain ⟨_, rfl⟩ := getTnl_some found
  by_cases absent : Absent c l r
  · by_cases single : (c.heap old).users = 1
    · rw [honoured_single_iff listed found absent fresh single]
      simp only [Served, absent, not_true_eq_false, single, true_and, false_or, ne_eq, false_and,
        or_false]
    · rw [honoured_shared_iff listed found absent single]
      simp only [Served, absent, not_true_eq_false, single, false_and, false_or, ne_eq,
        not_false_eq_true, true_and]
  · cases hashed : ChainTable.get (calcAddrHash tnlBuckets) c.tnlKey c.tnlHash
        (addrKey .doubleAddr l r) with
    | none => exact absurd (listed.paired.get_eq_none.mp hashed) absent
    | some new =>
        have honoured := @honoured_present c old l r env link listed new found hashed
        exact ⟨fun _ => .inl absent, fun _ => honoured⟩

def oneTunnel (users : Int) : TunnelCtl := init.withTnl ⟨in6addrAny, in6addrLoopback, 0, 5, users⟩

def answers (ext : Bool) : ModEnv := ⟨true, true, ⟨some 6, true⟩, ext⟩

theorem listed_oneTunnel {users : Int} (used : 1 ≤ users) : Listed (oneTunnel users) :=
  @Listed.withTnl init ok_init.listed ⟨in6addrAny, in6addrLoopback, 0, 5, users⟩
    (fun _ member => absurd member List.not_mem_nil)
    ⟨(by decide : (0 : Int) < 5), fun _ member => absurd member List.not_mem_nil⟩ used

theorem newIndex_oneTunnel (users : Int) (ext : Bool) :
    ∀ i ∈ (answers ext).created.ifindex, NewIndex (oneTunnel users) i := by
  intro i created
  cases created
  refine ⟨by decide, fun q member => ?_⟩
  rcases (mem_withTnl init _ q).mp member with old | rfl
  · exact absurd old List.not_mem_nil
  · rw [oneTunnel, withTnl_heap_top]
    exact (by decide : (5 : Int) ≠ 6)

theorem tunnel_mod_contract_single :
    Honoured (oneTunnel 1) (answers true) 5 in6addrLoopback in6addrAny 0 :=
  (tunnel_mod_contract_iff (listed_oneTunnel (le_refl 1)) (newIndex_oneTunnel 1 true)
    (by decide : (oneTunnel 1).getTnl 5 = some 0) in6addrLoopback in6addrAny 0).mpr
      (.inr (.inl ⟨by decide, fun _ => ⟨rfl, rfl⟩⟩))

/-- A shared tunnel's index is returned with the old end points, and a refused
change of an unshared one is left in place. -/
theorem tunnel_mod_breaks_contract :
    (Listed (oneTunnel 2) ∧ (∀ i ∈ (answers true).created.ifindex, NewIndex (oneTunnel 2) i) ∧
      (oneTunnel 2).getTnl 5 = some 0 ∧
      ¬ Honoured (oneTunnel 2) (answers true) 5 in6addrLoopback in6addrAny 0) ∧
    (Listed (oneTunnel 1) ∧ (∀ i ∈ (answers false).created.ifindex, NewIndex (oneTunnel 1) i) ∧
      (oneTunnel 1).getTnl 5 = some 0 ∧
      ¬ Honoured (oneTunnel 1) (answers false) 5 in6addrLoopback in6addrAny 0) := by
  have absent : ∀ users, Absent (oneTunnel users) in6addrLoopback in6addrAny := by
    intro users q member
    rcases (mem_withTnl init _ q).mp member with old | rfl
    · exact absurd old List.not_mem_nil
    · rw [oneTunnel, withTnl_tnlKey_top]
      simp only [addrKey]
      decide
  have shared := listed_oneTunnel (by decide : (1 : Int) ≤ 2)
  have single := listed_oneTunnel (le_refl (1 : Int))
  refine ⟨⟨shared, newIndex_oneTunnel 2 true, by decide, fun honoured => ?_⟩,
    single, newIndex_oneTunnel 1 false, by decide, fun honoured => ?_⟩
  · have refuses := (@honoured_shared_iff (oneTunnel 2) 0 _ _ (answers true) 0 shared (by decide)
      (absent 2) (by decide)).mp honoured
    exact absurd refuses (by decide)
  · have accepts := (@honoured_single_iff (oneTunnel 1) 0 _ _ (answers false) 0 single (by decide)
      (absent 1) (newIndex_oneTunnel 1 false) (by decide)).mp honoured
    exact absurd (accepts rfl).2 (by decide)

end OaiPmip.TunnelCtl
