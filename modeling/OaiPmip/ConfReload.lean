import OaiPmip.HaPrefixes
import OaiPmip.HashKeys

/-!
# Reloading the configuration: conf_reload.c and policy.c

`FCT_LIST_CHANGES` brings a list of the running configuration up to the list that was
parsed: what is in both is dropped from the new list, what is only in the old one is
removed, and the rest of the new list is appended.  An entry of the running list takes
every entry of the new list that it is equal to.
-/

set_option autoImplicit false

namespace OaiPmip.ConfReload

open OaiPmip.Ha OaiPmip.HashChains OaiPmip.HashKeys

/-- The calls of `cb_free` (or `free`), `cb_rem` and `cb_add`. -/
inductive Call (α : Type) where
  | free (el : α)
  | rem (el : α)
  | add (el : α)
  deriving DecidableEq

def Call.removed? {α : Type} : Call α → Option α
  | .rem el => some el
  | _ => none

def Call.added? {α : Type} : Call α → Option α
  | .add el => some el
  | _ => none

/-- What is left of `cur_list`, and the calls in their order. -/
structure Changes (α : Type) where
  curList : List α
  calls : List (Call α)

section Macro
variable {α : Type} (cbCmp : α → α → Int)

/-- The inner loop: `found`, what is left of `new_list`, and the calls. -/
def dropFromNew (curEl : α) : List α → Bool × List α × List (Call α)
  | [] => (false, [], [])
  | newEl :: rest =>
      let (found, left, calls) := dropFromNew curEl rest
      if cbCmp curEl newEl = 0 then (true, left, .free newEl :: calls)
      else (found, newEl :: left, calls)

/-- The outer loop: what stays in `cur_list`, what is left of `new_list`, and the calls. -/
def walkCur : List α → List α → List α × List α × List (Call α)
  | [], newList => ([], newList, [])
  | curEl :: rest, newList =>
      let (found, left, freed) := dropFromNew cbCmp curEl newList
      let (kept, left, calls) := walkCur rest left
      if found then (curEl :: kept, left, freed ++ calls)
      else (kept, left, freed ++ .rem curEl :: .free curEl :: calls)

/-- `parse_change_in_<struct_name>`. -/
def parseChange (curList newList : List α) : Changes α :=
  let (kept, left, calls) := walkCur cbCmp curList newList
  { curList := kept ++ left
    calls := calls ++ left.map .add }

end Macro

def Changes.removed {α : Type} (c : Changes α) : List α := c.calls.filterMap Call.removed?

def Changes.added {α : Type} (c : Changes α) : List α := c.calls.filterMap Call.added?

/-- `struct policy_bind_acl_entry` with its address; the parser counts the prefixes that
it moves into the list. -/
structure PolicyBindAclEntry where
  addr : Ptr
  hoa : In6Addr
  plen : Int
  bindPolicy : Int
  mnpCount : Int
  mobNetPrefixes : List PrefixListEntry
  counted : mnpCount = mobNetPrefixes.length
  deriving DecidableEq

def cmpMobNetPrefixes : List PrefixListEntry → List PrefixListEntry → Int
  | aPle :: as, bPle :: bs =>
      if aPle.plePlen ≠ bPle.plePlen ∨ aPle.plePrefix ≠ bPle.plePrefix then -1
      else cmpMobNetPrefixes as bs
  | _, _ => 0

def cmpPolicyBindAclEntry (a b : PolicyBindAclEntry) : Int :=
  if a.hoa ≠ b.hoa then -1
  else if a.plen ≠ b.plen ∨ a.bindPolicy ≠ b.bindPolicy ∨ a.mnpCount ≠ b.mnpCount then -1
  else cmpMobNetPrefixes a.mobNetPrefixes b.mobNetPrefixes

def policyAclHashsize : Nat := 32

instance policyAclHashsize_neZero : NeZero policyAclHashsize := ⟨by decide⟩

/-- `policy_bind_acl_hash`, whose nodes point to the entries. -/
abbrev PolicyBindAclHash := Hash policyAclHashsize (AddrKey × Ptr)

/-- `policy_bind_acl_add`; a table of single addresses does not look at `our_addr`. -/
def policyBindAclAdd (h : PolicyBindAclHash) (acl : PolicyBindAclEntry) (mallocOk : Bool) :
    Option (PolicyBindAclHash × Int) :=
  hashAdd .singleAddr h acl.addr in6addrAny acl.hoa mallocOk

def policyBindAclRem (h : PolicyBindAclHash) (acl : PolicyBindAclEntry) :
    Option PolicyBindAclHash :=
  hashDelete .singleAddr h in6addrAny acl.hoa

/-- What a call of `add_policy_bind_acl_entry`, `rem_policy_bind_acl_entry` or
`free_policy_bind_acl_entry` does to the table; a failure is printed only. -/
def applyCall (mallocOk : PolicyBindAclEntry → Bool) (h : PolicyBindAclHash) :
    Call PolicyBindAclEntry → Option PolicyBindAclHash
  | .free _ => some h
  | .rem acl => policyBindAclRem h acl
  | .add acl => (policyBindAclAdd h acl (mallocOk acl)).map Prod.fst

/-- `conf_apply_changes` on the binding ACL: the list and the table. -/
def confApplyBindAcl (mallocOk : PolicyBindAclEntry → Bool) (cur new : List PolicyBindAclEntry)
    (h : PolicyBindAclHash) : Changes PolicyBindAclEntry × Option PolicyBindAclHash :=
  let changes := parseChange cmpPolicyBindAclEntry cur new
  (changes, changes.calls.foldlM (applyCall mallocOk) h)

/-! ## What the loops leave -/

section Diff
variable {α : Type} {cbCmp : α → α → Int}

@[simp] theorem removed?_free (el : α) : (Call.free el).removed? = none := rfl

@[simp] theorem removed?_rem (el : α) : (Call.rem el).removed? = some el := rfl

@[simp] theorem removed?_add (el : α) : (Call.add el).removed? = none := rfl

@[simp] theorem added?_free (el : α) : (Call.free el).added? = none := rfl

@[simp] theorem added?_rem (el : α) : (Call.rem el).added? = none := rfl

@[simp] theorem added?_add (el : α) : (Call.add el).added? = some el := rfl

def missing (cbCmp : α → α → Int) (cur new : List α) : List α :=
  cur.filter fun x => new.all fun y => cbCmp x y ≠ 0

theorem missing_cons_of_equal {curEl : α} {rest new : List α}
    (equal : ∃ y ∈ new, cbCmp curEl y = 0) :
    missing cbCmp (curEl :: rest) new = missing cbCmp rest new := by
  obtain ⟨y, member, same⟩ := equal
  apply List.filter_cons_of_neg
  intro none
  exact of_decide_eq_true (List.all_eq_true.mp none y member) same

theorem missing_cons_of_none {curEl : α} {rest new : List α}
    (none : ∀ y ∈ new, cbCmp curEl y ≠ 0) :
    missing cbCmp (curEl :: rest) new = curEl :: missing cbCmp rest new := by
  apply List.filter_cons_of_pos
  simpa using none

theorem missing_sublist {new left : List α} (sub : ∀ y ∈ left, y ∈ new) (cur : List α) :
    (missing cbCmp cur new).Sublist (missing cbCmp cur left) := by
  apply List.monotone_filter_right
  intro x none
  simp only [List.all_eq_true] at none ⊢
  exact fun y member => none y (sub y member)

theorem dropFromNew_spec (curEl : α) (new : List α) :
    dropFromNew cbCmp curEl new =
      (decide (∃ y ∈ new, cbCmp curEl y = 0), new.filter fun y => cbCmp curEl y ≠ 0,
        (new.filter fun y => cbCmp curEl y = 0).map .free) := by
  induction new with
  | nil => simp [dropFromNew]
  | cons newEl rest ih =>
      simp only [dropFromNew, ih]
      by_cases same : cbCmp curEl newEl = 0 <;> simp [same]

theorem walkCur_cons (curEl : α) (rest new : List α) :
    walkCur cbCmp (curEl :: rest) new =
      let left := new.filter fun y => cbCmp curEl y ≠ 0
      let freed := (new.filter fun y => cbCmp curEl y = 0).map Call.free
      let after := walkCur cbCmp rest left
      if ∃ y ∈ new, cbCmp curEl y = 0 then (curEl :: after.1, after.2.1, freed ++ after.2.2)
      else (after.1, after.2.1, freed ++ .rem curEl :: .free curEl :: after.2.2) := by
  simp only [walkCur, dropFromNew_spec, decide_eq_true_eq]

theorem walkCur_left (cur new : List α) :
    (walkCur cbCmp cur new).2.1 = new.filter fun y => cur.all fun x => cbCmp x y ≠ 0 := by
  induction cur generalizing new with
  | nil => simp [walkCur]
  | cons curEl rest ih =>
      have left : (walkCur cbCmp (curEl :: rest) new).2.1 =
          (walkCur cbCmp rest (new.filter fun y => cbCmp curEl y ≠ 0)).2.1 := by
        rw [walkCur_cons]
        split <;> rfl
      rw [left, ih, List.filter_filter]
      apply List.filter_congr
      intro y _
      rw [List.all_cons, Bool.and_comm]

theorem walkCur_kept {cur new : List α} {x : α} (member : x ∈ (walkCur cbCmp cur new).1) :
    ∃ y ∈ new, cbCmp x y = 0 := by
  induction cur generalizing new with
  | nil => simp [walkCur] at member
  | cons curEl rest ih =>
      have later : x ∈ (walkCur cbCmp rest (new.filter fun y => cbCmp curEl y ≠ 0)).1 →
          ∃ y ∈ new, cbCmp x y = 0 := by
        intro inRest
        obtain ⟨y, inLeft, same⟩ := ih inRest
        exact ⟨y, List.mem_of_mem_filter inLeft, same⟩
      rw [walkCur_cons] at member
      split at member
      · rename_i found
        rcases List.mem_cons.mp member with rfl | inRest
        · exact found
        · exact later inRest
      · exact later member

theorem walkCur_covers (cur : List α) {new : List α} {y : α} (member : y ∈ new) :
    (∃ x ∈ (walkCur cbCmp cur new).1, cbCmp x y = 0) ∨ y ∈ (walkCur cbCmp cur new).2.1 := by
  induction cur generalizing new with
  | nil => exact .inr member
  | cons curEl rest ih =>
      rw [walkCur_cons]
      by_cases same : cbCmp curEl y = 0
      · have found : ∃ y ∈ new, cbCmp curEl y = 0 := ⟨y, member, same⟩
        simp only [if_pos found]
        exact .inl ⟨curEl, List.mem_cons_self, same⟩
      · have inLeft : y ∈ new.filter fun y => cbCmp curEl y ≠ 0 :=
          List.mem_filter.mpr ⟨member, decide_eq_true same⟩
        rcases ih inLeft with ⟨x, kept, equal⟩ | left
        · left
          split
          · exact ⟨x, List.mem_cons_of_mem _ kept, equal⟩
          · exact ⟨x, kept, equal⟩
        · right
          split <;> exact left

theorem filterMap_freed {f : Call α → Option α} (ignored : ∀ el, f (.free el) = none)
    (l : List α) : (l.map Call.free).filterMap f = [] := by
  rw [List.filterMap_eq_nil_iff]
  intro call member
  obtain ⟨el, -, rfl⟩ := List.mem_map.mp member
  exact ignored el

theorem walkCur_added (cur new : List α) :
    (walkCur cbCmp cur new).2.2.filterMap Call.added? = [] := by
  induction cur generalizing new with
  | nil => rfl
  | cons curEl rest ih =>
      rw [walkCur_cons]
      split
      · rw [List.filterMap_append, filterMap_freed added?_free, ih]
        rfl
      · rw [List.filterMap_append, filterMap_freed added?_free,
          List.filterMap_cons_none (added?_rem curEl), List.filterMap_cons_none (added?_free curEl),
          ih]
        rfl

/-- The elements that `cb_rem` is called for. -/
def removedFrom (cbCmp : α → α → Int) (cur new : List α) : List α :=
  (walkCur cbCmp cur new).2.2.filterMap Call.removed?

theorem removedFrom_cons (curEl : α) (rest new : List α) :
    removedFrom cbCmp (curEl :: rest) new =
      let later := removedFrom cbCmp rest (new.filter fun y => cbCmp curEl y ≠ 0)
      if ∃ y ∈ new, cbCmp curEl y = 0 then later else curEl :: later := by
  simp only [removedFrom, walkCur_cons]
  split
  · rw [List.filterMap_append, filterMap_freed removed?_free, List.nil_append]
  · rw [List.filterMap_append, filterMap_freed removed?_free, List.nil_append,
      List.filterMap_cons_some (removed?_rem curEl), List.filterMap_cons_none (removed?_free curEl)]

theorem missing_sublist_removed (cur new : List α) :
    (missing cbCmp cur new).Sublist (removedFrom cbCmp cur new) := by
  induction cur generalizing new with
  | nil => exact List.nil_sublist _
  | cons curEl rest ih =>
      have tail : (missing cbCmp rest new).Sublist
          (removedFrom cbCmp rest (new.filter fun y => cbCmp curEl y ≠ 0)) :=
        (missing_sublist (fun _ => List.mem_of_mem_filter) rest).trans (ih _)
      rw [removedFrom_cons]
      by_cases found : ∃ y ∈ new, cbCmp curEl y = 0
      · simpa only [if_pos found, missing_cons_of_equal found] using tail
      · have none : ∀ y ∈ new, cbCmp curEl y ≠ 0 := by simpa using found
        simpa only [if_neg found, missing_cons_of_none none] using tail.cons_cons curEl

/-- No entry of the running list is equal both to an earlier one and to an entry of the new
list. -/
def Once (cbCmp : α → α → Int) (cur new : List α) : Prop :=
  cur.Pairwise fun a b => cbCmp a b = 0 → ∀ y ∈ new, cbCmp b y ≠ 0

instance [DecidableEq α] (cur new : List α) : Decidable (Once cbCmp cur new) :=
  inferInstanceAs (Decidable (List.Pairwise _ _))

theorem once_cons {curEl : α} {rest new : List α} :
    Once cbCmp (curEl :: rest) new ↔
      (∀ x ∈ rest, cbCmp curEl x = 0 → ∀ y ∈ new, cbCmp x y ≠ 0) ∧ Once cbCmp rest new :=
  List.pairwise_cons

theorem Once.sub {cur new left : List α} (once : Once cbCmp cur new)
    (sub : ∀ y ∈ left, y ∈ new) : Once cbCmp cur left := by
  apply List.Pairwise.imp _ once
  intro a b none same y member
  exact none same y (sub y member)

/-- `cb_rem` is called for the missing elements only if none is repeated, in the sense of
`Once`: the repetition finds its equals gone. -/
theorem removedFrom_iff (equiv : Equivalence fun a b => cbCmp a b = 0) (cur new : List α) :
    removedFrom cbCmp cur new = missing cbCmp cur new ↔ Once cbCmp cur new := by
  induction cur generalizing new with
  | nil => exact iff_of_true rfl List.Pairwise.nil
  | cons curEl rest ih =>
      set left := new.filter fun y => cbCmp curEl y ≠ 0 with isLeft
      have sub : ∀ y ∈ left, y ∈ new := fun _ => List.mem_of_mem_filter
      have gone : ∀ y ∈ new, y ∉ left → cbCmp curEl y = 0 := by
        intro y member notLeft
        by_contra other
        exact notLeft (List.mem_filter.mpr ⟨member, decide_eq_true other⟩)
      have tail : removedFrom cbCmp (curEl :: rest) new = missing cbCmp (curEl :: rest) new ↔
          removedFrom cbCmp rest left = missing cbCmp rest new := by
        rw [removedFrom_cons]
        by_cases found : ∃ y ∈ new, cbCmp curEl y = 0
        · simp only [if_pos found, missing_cons_of_equal found, ← isLeft]
        · have none : ∀ y ∈ new, cbCmp curEl y ≠ 0 := by simpa using found
          simp only [if_neg found, missing_cons_of_none none, ← isLeft, List.cons.injEq, true_and]
      rw [tail, once_cons]
      constructor
      · intro same
        have between : missing cbCmp rest left = missing cbCmp rest new := by
          apply List.Sublist.antisymm _ (missing_sublist sub rest)
          rw [← same]
          exact missing_sublist_removed rest left
        have once : Once cbCmp rest left := (ih left).mp (same.trans between.symm)
        -- an equal of `curEl` would be missing from what `curEl` left, but not from `new`
        have alone : ∀ x ∈ rest, cbCmp curEl x = 0 → ∀ y ∈ new, cbCmp x y ≠ 0 := by
          intro x inRest equal y member same
          have inLeft : x ∈ missing cbCmp rest left := by
            refine List.mem_filter.mpr ⟨inRest, List.all_eq_true.mpr ?_⟩
            intro z inLeft
            apply decide_eq_true
            intro xz
            exact of_decide_eq_true (List.mem_filter.mp inLeft).2 (equiv.trans equal xz)
          rw [between] at inLeft
          have none := List.all_eq_true.mp (List.mem_filter.mp inLeft).2 y member
          exact of_decide_eq_true none same
        refine ⟨alone, ?_⟩
        apply List.Pairwise.imp_of_mem _ once
        intro a b inRest inRest' none equal y member same
        by_cases inLeft : y ∈ left
        · exact none equal y inLeft same
        · have curEq : cbCmp curEl b = 0 := equiv.trans (gone y member inLeft) (equiv.symm same)
          exact alone b inRest' curEq y member same
      · rintro ⟨alone, once⟩
        rw [(ih left).mpr (once.sub sub)]
        apply List.filter_congr
        intro x inRest
        rw [Bool.eq_iff_iff, List.all_eq_true, List.all_eq_true]
        constructor
        · intro none y member
          by_cases inLeft : y ∈ left
          · exact none y inLeft
          · apply decide_eq_true
            intro same
            have curEq : cbCmp curEl x = 0 :=
              equiv.trans (gone y member inLeft) (equiv.symm same)
            exact alone x inRest curEq y member same
        · exact fun none y inLeft => none y (sub y inLeft)

theorem walkCur_keeps {cur new : List α} (none : removedFrom cbCmp cur new = []) :
    (walkCur cbCmp cur new).1 = cur := by
  induction cur generalizing new with
  | nil => rfl
  | cons curEl rest ih =>
      rw [removedFrom_cons] at none
      rw [walkCur_cons]
      split at none
      · rename_i found
        simp only [if_pos found, ih none]
      · cases none

theorem parseChange_removed (cur new : List α) :
    (parseChange cbCmp cur new).removed = removedFrom cbCmp cur new := by
  have noneAdded : ∀ l : List α, (l.map Call.add).filterMap Call.removed? = [] := by
    intro l
    induction l with
    | nil => rfl
    | cons el rest ih => exact ih
  rw [Changes.removed, parseChange, List.filterMap_append, noneAdded, List.append_nil,
    removedFrom]

theorem parseChange_added (cur new : List α) :
    (parseChange cbCmp cur new).added = (walkCur cbCmp cur new).2.1 := by
  have allAdded : ∀ l : List α, (l.map Call.add).filterMap Call.added? = l := by
    intro l
    induction l with
    | nil => rfl
    | cons el rest ih => exact congrArg (el :: ·) ih
  rw [Changes.added, parseChange, List.filterMap_append, allAdded, walkCur_added,
    List.nil_append]

/-- What a reload is for: the list holds what the new one holds, and the callbacks see the
difference. -/
structure DiffExact (cbCmp : α → α → Int) (cur new : List α) (changes : Changes α) : Prop where
  only : ∀ x ∈ changes.curList, ∃ y ∈ new, cbCmp x y = 0
  all : ∀ y ∈ new, ∃ x ∈ changes.curList, cbCmp x y = 0
  removed : changes.removed = cur.filter fun x => new.all fun y => cbCmp x y ≠ 0
  added : changes.added = new.filter fun y => cur.all fun x => cbCmp x y ≠ 0

def Unchanged (cbCmp : α → α → Int) (cur new : List α) : Prop :=
  List.Forall₂ (fun a b => cbCmp a b = 0) cur new

structure Quiet (cur : List α) (changes : Changes α) : Prop where
  removed : changes.removed = []
  added : changes.added = []
  curList : changes.curList = cur

theorem diffExact_iff (equiv : Equivalence fun a b => cbCmp a b = 0) (cur new : List α) :
    DiffExact cbCmp cur new (parseChange cbCmp cur new) ↔ Once cbCmp cur new := by
  rw [← removedFrom_iff equiv]
  constructor
  · intro exact'
    rw [← parseChange_removed]
    exact exact'.removed
  · intro removed
    refine ⟨?_, ?_, ?_, ?_⟩
    · intro x member
      rcases List.mem_append.mp member with kept | left
      · exact walkCur_kept kept
      · rw [walkCur_left] at left
        exact ⟨x, List.mem_of_mem_filter left, equiv.refl x⟩
    · intro y member
      rcases walkCur_covers cur member with ⟨x, kept, same⟩ | left
      · exact ⟨x, List.mem_append_left _ kept, same⟩
      · exact ⟨y, List.mem_append_right _ left, equiv.refl y⟩
    · rw [parseChange_removed, removed]
      rfl
    · rw [parseChange_added, walkCur_left]

theorem DiffExact.quiet {cur new : List α}
    (exact' : DiffExact cbCmp cur new (parseChange cbCmp cur new))
    (unchanged : Unchanged cbCmp cur new) : Quiet cur (parseChange cbCmp cur new) := by
  obtain ⟨left, right⟩ : (∀ x ∈ cur, ∃ y ∈ new, cbCmp x y = 0) ∧
      ∀ y ∈ new, ∃ x ∈ cur, cbCmp x y = 0 := by
    clear exact'
    induction unchanged with
    | nil => simp
    | cons same _ ih =>
        refine ⟨?_, ?_⟩
        · exact List.forall_mem_cons.mpr ⟨⟨_, List.mem_cons_self, same⟩, fun x member =>
            (ih.1 x member).imp fun _ found => ⟨List.mem_cons_of_mem _ found.1, found.2⟩⟩
        · exact List.forall_mem_cons.mpr ⟨⟨_, List.mem_cons_self, same⟩, fun y member =>
            (ih.2 y member).imp fun _ found => ⟨List.mem_cons_of_mem _ found.1, found.2⟩⟩
  have noneRemoved : (parseChange cbCmp cur new).removed = [] := by
    rw [exact'.removed, List.filter_eq_nil_iff]
    intro x member none
    obtain ⟨y, inNew, same⟩ := left x member
    exact of_decide_eq_true (List.all_eq_true.mp none y inNew) same
  have noneAdded : (parseChange cbCmp cur new).added = [] := by
    rw [exact'.added, List.filter_eq_nil_iff]
    intro y member none
    obtain ⟨x, inCur, same⟩ := right y member
    exact of_decide_eq_true (List.all_eq_true.mp none x inCur) same
  refine ⟨noneRemoved, noneAdded, ?_⟩
  rw [parseChange_removed] at noneRemoved
  rw [parseChange_added] at noneAdded
  simp only [parseChange, noneAdded, walkCur_keeps noneRemoved, List.append_nil]

end Diff

theorem cmpMobNetPrefixes_eq_zero {as bs : List PrefixListEntry} (same : as.length = bs.length) :
    cmpMobNetPrefixes as bs = 0 ↔ as = bs := by
  induction as generalizing bs with
  | nil =>
      cases bs with
      | nil => simp [cmpMobNetPrefixes]
      | cons bPle bs => cases same
  | cons aPle as ih =>
      cases bs with
      | nil => cases same
      | cons bPle bs =>
          obtain ⟨aPlen, aPrefix⟩ := aPle
          obtain ⟨bPlen, bPrefix⟩ := bPle
          simp only [cmpMobNetPrefixes]
          split
          · rename_i differ
            simp only [List.cons.injEq, PrefixListEntry.mk.injEq]
            tauto
          · rename_i agree
            simp only [not_or, not_not] at agree
            obtain ⟨rfl, rfl⟩ := agree
            simp [ih (Nat.succ.inj same)]

theorem cmpPolicyBindAclEntry_eq_zero (a b : PolicyBindAclEntry) :
    cmpPolicyBindAclEntry a b = 0 ↔ a.hoa = b.hoa ∧ a.plen = b.plen ∧
      a.bindPolicy = b.bindPolicy ∧ a.mobNetPrefixes = b.mobNetPrefixes := by
  simp only [cmpPolicyBindAclEntry]
  have counts : a.mobNetPrefixes = b.mobNetPrefixes → a.mnpCount = b.mnpCount := by
    intro same
    rw [a.counted, b.counted, same]
  split
  · tauto
  · split
    · tauto
    · rename_i _ agree
      simp only [not_or, not_not] at agree
      have lengths : a.mobNetPrefixes.length = b.mobNetPrefixes.length := by
        have := agree.2.2
        rw [a.counted, b.counted] at this
        omega
      rw [cmpMobNetPrefixes_eq_zero lengths]
      tauto

theorem cmpPolicyBindAclEntry_equivalence :
    Equivalence fun a b => cmpPolicyBindAclEntry a b = 0 := by
  simp only [cmpPolicyBindAclEntry_eq_zero]
  refine ⟨fun _ => ⟨rfl, rfl, rfl, rfl⟩, ?_, ?_⟩
  · rintro a b ⟨hoa, plen, policy, mnps⟩
    exact ⟨hoa.symm, plen.symm, policy.symm, mnps.symm⟩
  · rintro a b c ⟨hoa, plen, policy, mnps⟩ ⟨hoa', plen', policy', mnps'⟩
    exact ⟨hoa.trans hoa', plen.trans plen', policy.trans policy', mnps.trans mnps'⟩

/-! ## Reloading -/

theorem applyCalls_quiet (mallocOk : PolicyBindAclEntry → Bool) (h : PolicyBindAclHash)
    {calls : List (Call PolicyBindAclEntry)} (noneRemoved : calls.filterMap Call.removed? = [])
    (noneAdded : calls.filterMap Call.added? = []) :
    calls.foldlM (applyCall mallocOk) h = some h := by
  induction calls with
  | nil => rfl
  | cons call rest ih =>
      cases call with
      | free el => exact ih noneRemoved noneAdded
      | rem el => cases noneRemoved
      | add el => cases noneAdded

structure AclReloaded (cur new : List PolicyBindAclEntry) (h : PolicyBindAclHash)
    (result : Changes PolicyBindAclEntry × Option PolicyBindAclHash) : Prop where
  diff : DiffExact cmpPolicyBindAclEntry cur new result.1
  quiet : Unchanged cmpPolicyBindAclEntry cur new → Quiet cur result.1 ∧ result.2 = some h

theorem parseChange_exact_iff {α : Type} (cbCmp : α → α → Int)
    (equiv : Equivalence fun a b => cbCmp a b = 0) (cur new : List α)
    (mallocOk : PolicyBindAclEntry → Bool) (curAcl newAcl : List PolicyBindAclEntry)
    (h : PolicyBindAclHash) :
    ((DiffExact cbCmp cur new (parseChange cbCmp cur new) ∧
        (Unchanged cbCmp cur new → Quiet cur (parseChange cbCmp cur new))) ↔
      Once cbCmp cur new) ∧
    (AclReloaded curAcl newAcl h (confApplyBindAcl mallocOk curAcl newAcl h) ↔
      Once cmpPolicyBindAclEntry curAcl newAcl) := by
  refine ⟨⟨?_, ?_⟩, ?_, ?_⟩
  · rintro ⟨diff, -⟩
    exact (diffExact_iff equiv cur new).mp diff
  · intro once
    have diff := (diffExact_iff equiv cur new).mpr once
    exact ⟨diff, diff.quiet⟩
  · intro reloaded
    exact (diffExact_iff cmpPolicyBindAclEntry_equivalence curAcl newAcl).mp reloaded.diff
  · intro once
    have diff := (diffExact_iff cmpPolicyBindAclEntry_equivalence curAcl newAcl).mpr once
    refine ⟨diff, ?_⟩
    intro unchanged
    have quiet := diff.quiet unchanged
    exact ⟨quiet, applyCalls_quiet mallocOk h quiet.removed quiet.added⟩

theorem int_sub_equivalence : Equivalence fun a b : Int => a - b = 0 := by
  simp only [sub_eq_zero]
  exact eq_equivalence

theorem parseChange_exact_two_kept :
    DiffExact (fun a b : Int => a - b) [1, 2, 3] [2, 4, 3]
      (parseChange (fun a b : Int => a - b) [1, 2, 3] [2, 4, 3]) :=
  ((parseChange_exact_iff (fun a b : Int => a - b) int_sub_equivalence [1, 2, 3] [2, 4, 3]
    (fun _ => true) [] [] (hashInit policyAclHashsize (AddrKey × Ptr))).1.mpr (by decide)).1

def denied (addr : Ptr) : PolicyBindAclEntry where
  addr := addr
  hoa := in6addrLoopback
  plen := 128
  bindPolicy := 129
  mnpCount := 0
  mobNetPrefixes := []
  counted := rfl

/-- `policy_bind_acl_config` with the entry twice: the second addition does not compare the
only node of the chain. -/
def deniedTwice : Option PolicyBindAclHash := do
  let (h, _) ← policyBindAclAdd (hashInit policyAclHashsize (AddrKey × Ptr)) (denied 1) true
  let (h, _) ← policyBindAclAdd h (denied 2) true
  some h

/-- A reload of the same two entries removes one of them, and the table keeps the node
that points to the freed one. -/
theorem reload_drops_repeated : ∃ h ∈ deniedTwice,
    Unchanged cmpPolicyBindAclEntry [denied 1, denied 2] [denied 3, denied 4] ∧
    let result := confApplyBindAcl (fun _ => true) [denied 1, denied 2] [denied 3, denied 4] h
    result.1.removed = [denied 2] ∧ result.1.curList = [denied 1] ∧
      (result.2.bind fun h' => (chainGet (calcAddrHash policyAclHashsize) Prod.fst h'
        (addrKey .singleAddr in6addrAny in6addrLoopback)).map fun found => found.map Prod.snd) =
        some (some 2) ∧
      ¬ AclReloaded [denied 1, denied 2] [denied 3, denied 4] h result := by
  obtain ⟨h, running⟩ : ∃ h, deniedTwice = some h :=
    Option.isSome_iff_exists.mp (by decide +kernel)
  have same : cmpPolicyBindAclEntry (denied 1) (denied 3) = 0 ∧
      cmpPolicyBindAclEntry (denied 2) (denied 4) = 0 := by decide
  have unchanged : Unchanged cmpPolicyBindAclEntry [denied 1, denied 2] [denied 3, denied 4] :=
    .cons same.1 (.cons same.2 .nil)
  have removed : (parseChange cmpPolicyBindAclEntry [denied 1, denied 2]
      [denied 3, denied 4]).removed = [denied 2] := by decide
  have found : (deniedTwice.bind fun h =>
      (confApplyBindAcl (fun _ => true) [denied 1, denied 2] [denied 3, denied 4] h).2.bind
        fun h' => (chainGet (calcAddrHash policyAclHashsize) Prod.fst h'
          (addrKey .singleAddr in6addrAny in6addrLoopback)).map fun found => found.map Prod.snd) =
      some (some 2) := by decide +kernel
  rw [running, Option.bind_some] at found
  refine ⟨h, running, unchanged, removed, by rfl, found, ?_⟩
  intro reloaded
  have quiet := (reloaded.quiet unchanged).1.removed
  rw [show (confApplyBindAcl _ _ _ h).1.removed = _ from removed] at quiet
  cases quiet

end OaiPmip.ConfReload
