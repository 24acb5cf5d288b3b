import Mathlib.Data.List.Basic
import Mathlib.Logic.Function.Basic
import Mathlib.Tactic.Common

/-!
# Circular doubly linked lists

A head and the links inside the elements point to their neighbours.  `Ring`
says that the links from the head on are those of a list of elements, in both
directions, and that every other element points to itself.
-/

set_option autoImplicit false

namespace OaiPmip.RingList

variable {E : Type}

inductive Link (E : Type) where
  | head
  | node (e : E)
  deriving DecidableEq

structure Links (E : Type) where
  next : Link E → Link E
  prev : Link E → Link E

def Links.init (E : Type) : Links E := ⟨id, id⟩

/-! ## Segments -/

/-- The links from `a` over the elements to `b`. -/
def Segment (l : Links E) : Link E → List E → Link E → Prop
  | a, [], b => l.next a = b ∧ l.prev b = a
  | a, e :: rest, b => l.next a = .node e ∧ l.prev (.node e) = a ∧ Segment l (.node e) rest b

structure Ring (l : Links E) (elements : List E) : Prop where
  segment : Segment l .head elements .head
  nodup : elements.Nodup
  alone : ∀ e, e ∉ elements → l.next (.node e) = .node e ∧ l.prev (.node e) = .node e

theorem ring_init : Ring (Links.init E) [] where
  segment := ⟨rfl, rfl⟩
  nodup := List.nodup_nil
  alone := fun _ _ => ⟨rfl, rfl⟩

def firstLink (elements : List E) (b : Link E) : Link E :=
  match elements with
  | [] => b
  | e :: _ => .node e

def lastLink (a : Link E) : List E → Link E
  | [] => a
  | e :: rest => lastLink (.node e) rest

theorem Segment.next_eq {l : Links E} {a b : Link E} {elements : List E}
    (segment : Segment l a elements b) : l.next a = firstLink elements b := by
  cases elements with
  | nil => exact segment.1
  | cons e rest => exact segment.1

theorem Segment.prev_eq {l : Links E} {a b : Link E} {elements : List E}
    (segment : Segment l a elements b) : l.prev b = lastLink a elements := by
  induction elements generalizing a with
  | nil => exact segment.2
  | cons e rest ih => exact ih segment.2.2

theorem lastLink_eq (a : Link E) (elements : List E) :
    lastLink a elements = a ∨ ∃ e ∈ elements, lastLink a elements = .node e := by
  induction elements generalizing a with
  | nil => exact Or.inl rfl
  | cons e rest ih =>
      rcases ih (.node e) with here | ⟨other, member, isLast⟩
      · exact Or.inr ⟨e, List.mem_cons_self, here⟩
      · exact Or.inr ⟨other, List.mem_cons_of_mem _ member, isLast⟩

theorem segment_append (l : Links E) (a b : Link E) (front : List E) (e : E) (back : List E) :
    Segment l a (front ++ e :: back) b ↔
      Segment l a front (.node e) ∧ Segment l (.node e) back b := by
  induction front generalizing a with
  | nil => simp only [List.nil_append, Segment, and_assoc]
  | cons f rest ih => simp only [List.cons_append, Segment, ih, and_assoc]

theorem Segment.congr {l l' : Links E} {a b : Link E} {elements : List E}
    (segment : Segment l a elements b)
    (next : ∀ x, x = a ∨ (∃ e ∈ elements, x = .node e) → l'.next x = l.next x)
    (prev : ∀ x, x = b ∨ (∃ e ∈ elements, x = .node e) → l'.prev x = l.prev x) :
    Segment l' a elements b := by
  induction elements generalizing a with
  | nil =>
      obtain ⟨forward, backward⟩ := segment
      exact ⟨(next a (Or.inl rfl)).trans forward, (prev b (Or.inl rfl)).trans backward⟩
  | cons e rest ih =>
      obtain ⟨forward, backward, later⟩ := segment
      have here : (.node e : Link E) = a ∨ ∃ f ∈ e :: rest, (.node e : Link E) = .node f :=
        Or.inr ⟨e, List.mem_cons_self, rfl⟩
      refine ⟨(next a (Or.inl rfl)).trans forward, ?_, ?_⟩
      · rw [prev (.node e) (Or.inr ⟨e, List.mem_cons_self, rfl⟩)]
        exact backward
      · apply ih later
        · intro x cases_
          apply next
          rcases cases_ with rfl | ⟨f, member, rfl⟩
          · exact here
          · exact Or.inr ⟨f, List.mem_cons_of_mem _ member, rfl⟩
        · intro x cases_
          apply prev
          rcases cases_ with rfl | ⟨f, member, rfl⟩
          · exact Or.inl rfl
          · exact Or.inr ⟨f, List.mem_cons_of_mem _ member, rfl⟩

theorem segment_front {l : Links E} {a b : Link E} {front back : List E}
    (segment : Segment l a (front ++ back) b) : Segment l a front (firstLink back b) := by
  cases back with
  | nil =>
      rw [List.append_nil] at segment
      exact segment
  | cons e rest => exact ((segment_append l a b front e rest).mp segment).1

theorem ne_of_segment {x : Link E} {elements : List E} {e : E}
    (within : x = .head ∨ ∃ f ∈ elements, x = .node f) (absent : e ∉ elements) :
    x ≠ .node e := by
  intro same
  subst same
  rcases within with isHead | ⟨f, member, isNode⟩
  · cases isHead
  · cases isNode
    exact absent member

/-- A segment of nodes that starts at its first one holds nothing but these. -/
theorem node_of_segment {x : Link E} {g : E} {rest : List E}
    (within : x = .node g ∨ ∃ f ∈ rest, x = .node f) : ∃ f ∈ g :: rest, x = .node f := by
  rcases within with rfl | ⟨f, member, rfl⟩
  · exact ⟨g, List.mem_cons_self, rfl⟩
  · exact ⟨f, List.mem_cons_of_mem _ member, rfl⟩

theorem Segment.retarget {l l' : Links E} {a x y : Link E} {front : List E}
    (segment : Segment l a front x) (nodup : front.Nodup) (apart : ∀ e ∈ front, a ≠ .node e)
    (next : ∀ z, z = a ∨ (∃ e ∈ front, z = .node e) → z ≠ lastLink a front →
      l'.next z = l.next z)
    (prev : ∀ e ∈ front, l'.prev (.node e) = l.prev (.node e))
    (forward : l'.next (lastLink a front) = y) (backward : l'.prev y = lastLink a front) :
    Segment l' a front y := by
  induction front generalizing a with
  | nil => exact ⟨forward, backward⟩
  | cons e rest ih =>
      obtain ⟨first, second, later⟩ := segment
      obtain ⟨fresh, nodupRest⟩ := List.nodup_cons.mp nodup
      have notLast : a ≠ lastLink (.node e) rest := by
        rcases lastLink_eq (.node e) rest with isNode | ⟨f, member, isNode⟩
        · rw [isNode]
          exact apart e List.mem_cons_self
        · rw [isNode]
          exact apart f (List.mem_cons_of_mem _ member)
      refine ⟨?_, ?_, ?_⟩
      · rw [next a (Or.inl rfl) notLast]
        exact first
      · rw [prev e List.mem_cons_self]
        exact second
      · apply ih later nodupRest
        · intro f member same
          cases same
          exact fresh member
        · intro z from_ notEnd
          exact next z (Or.inr (node_of_segment from_)) notEnd
        · exact fun f member => prev f (List.mem_cons_of_mem _ member)
        · exact forward
        · exact backward

/-! ## Insertion and deletion -/

variable [DecidableEq E]

/-- `__list_add`. -/
def listAddBetween (l : Links E) (new prev next : Link E) : Links E where
  next := Function.update (Function.update l.next new next) prev new
  prev := Function.update (Function.update l.prev next new) new prev

def listAddTail (l : Links E) (new place : Link E) : Links E :=
  listAddBetween l new (l.prev place) place

/-- `__list_del`. -/
def listDelBetween (l : Links E) (prev next : Link E) : Links E where
  next := Function.update l.next prev next
  prev := Function.update l.prev next prev

def initListHead (l : Links E) (ptr : Link E) : Links E where
  next := Function.update l.next ptr ptr
  prev := Function.update l.prev ptr ptr

def listDel (l : Links E) (entry : Link E) : Links E :=
  initListHead (listDelBetween l (l.prev entry) (l.next entry)) entry

theorem listDel_alone {l : Links E} {elements : List E} (ring : Ring l elements) {e : E}
    (absent : e ∉ elements) : listDel l (.node e) = l := by
  obtain ⟨next, prev⟩ := ring.alone e absent
  simp only [listDel, listDelBetween, initListHead, next, prev, Function.update_idem]
  have sameNext : Function.update l.next (.node e) (.node e) = l.next := by
    rw [Function.update_eq_self_iff]
    exact next.symm
  have samePrev : Function.update l.prev (.node e) (.node e) = l.prev := by
    rw [Function.update_eq_self_iff]
    exact prev.symm
  rw [sameNext, samePrev]

omit [DecidableEq E] in
theorem lastLink_ne {front : List E} {e : E} (absent : e ∉ front) :
    lastLink (.head : Link E) front ≠ .node e :=
  ne_of_segment (lastLink_eq .head front) absent

omit [DecidableEq E] in
theorem firstLink_ne {back : List E} {e : E} (absent : e ∉ back) :
    firstLink back (.head : Link E) ≠ .node e := by
  cases back with
  | nil => exact fun same => by cases same
  | cons f rest =>
      intro same
      cases same
      exact absent List.mem_cons_self

theorem listDel_next (l : Links E) (e : E) (x : Link E) :
    (listDel l (.node e)).next x =
      if x = .node e then .node e else if x = l.prev (.node e) then l.next (.node e)
      else l.next x := by
  simp only [listDel, initListHead, listDelBetween, Function.update_apply]

theorem listDel_prev (l : Links E) (e : E) (x : Link E) :
    (listDel l (.node e)).prev x =
      if x = .node e then .node e else if x = l.next (.node e) then l.prev (.node e)
      else l.prev x := by
  simp only [listDel, initListHead, listDelBetween, Function.update_apply]

theorem ring_listDel {l : Links E} {front back : List E} {e : E}
    (ring : Ring l (front ++ e :: back)) : Ring (listDel l (.node e)) (front ++ back) := by
  obtain ⟨before, after⟩ := (segment_append l .head .head front e back).mp ring.segment
  have prevIs : l.prev (.node e) = lastLink .head front := before.prev_eq
  have nextIs : l.next (.node e) = firstLink back .head := after.next_eq
  obtain ⟨nodupFront, nodupRest, disjoint⟩ := List.nodup_append.mp ring.nodup
  obtain ⟨notBack, nodupBack⟩ := List.nodup_cons.mp nodupRest
  have notFront : e ∉ front := fun member => disjoint e member e List.mem_cons_self rfl
  have apartNodes : ∀ f ∈ front, (.node f : Link E) ≠ firstLink back .head := by
    intro f member same
    cases back with
    | nil => cases same
    | cons g rest =>
        cases same
        exact disjoint f member f (List.mem_cons_of_mem _ List.mem_cons_self) rfl
  have joined : Segment (listDel l (.node e)) .head front (firstLink back .head) := by
    apply before.retarget nodupFront
    · exact fun f _ same => by cases same
    · intro z from_ notLast
      rw [listDel_next, prevIs, if_neg (ne_of_segment from_ notFront), if_neg notLast]
    · intro f member
      rw [listDel_prev, nextIs, if_neg _, if_neg (apartNodes f member)]
      intro same
      cases same
      exact notFront member
    · rw [listDel_next, prevIs, nextIs, if_neg (lastLink_ne notFront), if_pos rfl]
    · rw [listDel_prev, prevIs, nextIs, if_neg (firstLink_ne notBack), if_pos rfl]
  refine ⟨?_, ?_, ?_⟩
  · cases back with
    | nil =>
        rw [List.append_nil]
        exact joined
    | cons g rest =>
        apply (segment_append _ _ _ front g rest).mpr
        refine ⟨joined, ?_⟩
        obtain ⟨-, -, later⟩ := after
        obtain ⟨fresh, -⟩ := List.nodup_cons.mp nodupBack
        apply later.congr
        · intro x from_
          obtain ⟨f, member, rfl⟩ := node_of_segment from_
          rw [listDel_next, prevIs, if_neg _, if_neg _]
          · intro same
            rcases lastLink_eq (.head : Link E) front with isHead | ⟨h, inFront, isLast⟩
            · rw [isHead] at same
              cases same
            · rw [isLast] at same
              cases same
              exact disjoint f inFront f (List.mem_cons_of_mem _ member) rfl
          · intro same
            cases same
            exact notBack member
        · intro x from_
          have notLater : e ∉ rest := fun member => notBack (List.mem_cons_of_mem _ member)
          rw [listDel_prev, nextIs, if_neg (ne_of_segment from_ notLater)]
          exact if_neg (ne_of_segment from_ fresh)
  · exact (List.nodup_append.mpr ⟨nodupFront, nodupBack, fun f inFront g inBack =>
      disjoint f inFront g (List.mem_cons_of_mem _ inBack)⟩)
  · intro f absent
    rw [listDel_next, listDel_prev]
    by_cases isDeleted : f = e
    · rw [isDeleted, if_pos rfl, if_pos rfl]
      exact ⟨rfl, rfl⟩
    · have outside : f ∉ front ∧ f ∉ back := by simpa [not_or] using absent
      have notNode : (.node f : Link E) ≠ .node e := fun same => isDeleted (by cases same; rfl)
      rw [prevIs, nextIs, if_neg notNode, if_neg notNode,
        if_neg (lastLink_ne outside.1).symm, if_neg (firstLink_ne outside.2).symm]
      apply ring.alone
      simp [outside, isDeleted]

theorem ring_listAddTail {l : Links E} {front back : List E} {e : E}
    (ring : Ring l (front ++ back)) (absent : e ∉ front ++ back) :
    Ring (listAddTail l (.node e) (firstLink back .head)) (front ++ e :: back) := by
  have before : Segment l .head front (firstLink back .head) := segment_front ring.segment
  have prevIs : l.prev (firstLink back .head) = lastLink .head front := before.prev_eq
  obtain ⟨nodupFront, nodupBack, disjoint⟩ := List.nodup_append.mp ring.nodup
  have outside : e ∉ front ∧ e ∉ back := by simpa [not_or] using absent
  have nextAt : ∀ x, (listAddTail l (.node e) (firstLink back .head)).next x =
      if x = lastLink .head front then .node e else if x = .node e then firstLink back .head
      else l.next x := by
    intro x
    simp only [listAddTail, listAddBetween, Function.update_apply, prevIs]
  have prevAt : ∀ x, (listAddTail l (.node e) (firstLink back .head)).prev x =
      if x = .node e then lastLink .head front
      else if x = firstLink back .head then .node e else l.prev x := by
    intro x
    simp only [listAddTail, listAddBetween, Function.update_apply, prevIs]
  have forward : (listAddTail l (.node e) (firstLink back .head)).next (.node e) =
      firstLink back .head := by
    rw [nextAt, if_neg (lastLink_ne outside.1).symm, if_pos rfl]
  have backward : (listAddTail l (.node e) (firstLink back .head)).prev (firstLink back .head) =
      .node e := by
    rw [prevAt, if_neg (firstLink_ne outside.2), if_pos rfl]
  refine ⟨(segment_append _ _ _ front e back).mpr ⟨?_, ?_⟩, ?_, ?_⟩
  · apply before.retarget nodupFront
    · exact fun f _ same => by cases same
    · intro z from_ notLast
      rw [nextAt, if_neg notLast, if_neg (ne_of_segment from_ outside.1)]
    · intro f member
      rw [prevAt, if_neg _, if_neg _]
      · intro same
        cases back with
        | nil => cases same
        | cons g rest =>
            cases same
            exact disjoint f member f List.mem_cons_self rfl
      · intro same
        cases same
        exact outside.1 member
    · rw [nextAt, if_pos rfl]
    · rw [prevAt, if_pos rfl]
  · cases back with
    | nil => exact ⟨forward, backward⟩
    | cons g rest =>
        obtain ⟨-, later⟩ := (segment_append l .head .head front g rest).mp ring.segment
        obtain ⟨fresh, -⟩ := List.nodup_cons.mp nodupBack
        refine ⟨forward, backward, ?_⟩
        apply later.congr
        · intro x from_
          obtain ⟨f, member, rfl⟩ := node_of_segment from_
          rw [nextAt, if_neg _, if_neg _]
          · intro same
            cases same
            exact outside.2 member
          · have notFront : f ∉ front := fun inFront => disjoint f inFront f member rfl
            exact (lastLink_ne notFront).symm
        · intro x from_
          have notLater : e ∉ rest := fun member => outside.2 (List.mem_cons_of_mem _ member)
          rw [prevAt, if_neg (ne_of_segment from_ notLater)]
          exact if_neg (ne_of_segment from_ fresh)
  · apply List.nodup_append.mpr
    refine ⟨nodupFront, List.nodup_cons.mpr ⟨outside.2, nodupBack⟩, ?_⟩
    intro f inFront g inBack
    rcases List.mem_cons.mp inBack with rfl | inRest
    · intro same
      subst same
      exact outside.1 inFront
    · exact disjoint f inFront g inRest
  · intro f elsewhere
    have apart : f ∉ front ∧ f ≠ e ∧ f ∉ back := by simpa [not_or] using elsewhere
    have notNode : (.node f : Link E) ≠ .node e := fun same => apart.2.1 (by cases same; rfl)
    rw [nextAt, prevAt, if_neg (lastLink_ne apart.1).symm, if_neg notNode, if_neg notNode,
      if_neg (firstLink_ne apart.2.2).symm]
    apply ring.alone
    simp [apart]

/-- `list_for_each` up to the first element with `found`, or the head where
there is none.  `fuel` bounds the walk. -/
def seek (l : Links E) (found : E → Bool) : Nat → Link E → Option (Link E)
  | 0, _ => none
  | fuel + 1, place =>
      match l.next place with
      | .head => some .head
      | .node cur => if found cur then some (.node cur) else seek l found fuel (.node cur)

omit [DecidableEq E] in
theorem seek_segment {l : Links E} {elements : List E} (found : E → Bool) {place : Link E}
    (segment : Segment l place elements .head) {fuel : Nat} (enough : elements.length < fuel) :
    seek l found fuel place =
      some (firstLink (elements.dropWhile fun e => !found e) .head) := by
  induction elements generalizing place fuel with
  | nil =>
      obtain ⟨next, -⟩ := segment
      cases fuel with
      | zero => exact absurd enough (Nat.lt_irrefl 0)
      | succ fuel =>
          simp only [seek, next]
          rfl
  | cons e rest ih =>
      obtain ⟨next, -, later⟩ := segment
      cases fuel with
      | zero => exact absurd enough (Nat.not_lt_zero _)
      | succ fuel =>
          simp only [seek, next]
          by_cases isFound : found e
          · simp [isFound, firstLink]
          · have shorter : rest.length < fuel := by
              rw [List.length_cons] at enough
              omega
            rw [if_neg isFound, ih later shorter, List.dropWhile_cons_of_pos (by simp [isFound])]

end OaiPmip.RingList
