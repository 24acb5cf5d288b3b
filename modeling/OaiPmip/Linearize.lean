import Mathlib.Algebra.Order.BigOperators.Group.List
import Mathlib.Algebra.Order.Group.Nat
import Mathlib.Algebra.Ring.Nat
import OaiPmip.Lib.Loops

/-!
# Vectors into one buffer: ndisc.c

`iov_linearize` copies the elements of a vector one behind the other.  The elements that
it reads are kept in a log, with what lies behind the vector read as any element at all;
a copy that leaves an element or the destination is a fault.
-/

set_option autoImplicit false

namespace OaiPmip.Linearize

open OaiPmip.Loops

/-- What an `unsigned int` counts up to. -/
@[irreducible] def uintMod : Nat := 2 ^ 32

/-- `struct iovec`, with the memory that its base points at. -/
structure Iovec where
  base : Option (List UInt8)
  len : Nat

/-- `l = cur.iov_len` in an `unsigned int`. -/
def Iovec.low (e : Iovec) : Nat := e.len % uintMod

inductive Fault where
  | source
  | destination
  deriving DecidableEq

structure State where
  i : Nat
  cur : Iovec
  rem : Nat
  data : Nat
  dst : List UInt8
  reads : List Nat

structure Outcome where
  ret : Int
  written : Option Int
  dst : List UInt8
  reads : List Nat

def element (iov : List Iovec) (behind : Nat → Iovec) (k : Nat) : Iovec := iov.getD k (behind k)

def memcpy (dst : List UInt8) (data : Nat) (src : List UInt8) (l : Nat) :
    Except Fault (List UInt8) :=
  if src.length < l then .error .source
  else if dst.length < data + l then .error .destination
  else .ok (dst.take data ++ src.take l ++ dst.drop (data + l))

def copyTurn (dstlen : Nat) (iov : List Iovec) (behind : Nat → Iovec) (s : State) :
    Except Fault (Turn State Outcome) :=
  if s.i < iov.length ∧ s.cur.low ≤ s.rem then
    match s.cur.base with
    | none => .ok (.done ⟨-1, none, s.dst, s.reads⟩)
    | some base => do
        let dst ← memcpy s.dst s.data base s.cur.low
        let i := (s.i + 1) % uintMod
        return .again ⟨i, element iov behind i, s.rem - s.cur.low, s.data + s.cur.low, dst,
          i :: s.reads⟩
  else if s.i ≠ iov.length then .ok (.done ⟨-1, none, s.dst, s.reads⟩)
  else .ok (.done ⟨0, some ((dstlen : Int) - s.rem), s.dst, s.reads⟩)

def start (dst : List UInt8) (iov : List Iovec) (behind : Nat → Iovec) : State where
  i := 0
  cur := element iov behind 0
  rem := dst.length
  data := 0
  dst := dst
  reads := [0]

/-- `dstlen` is the size of the buffer. -/
def iovLinearize (fuel : Nat) (dst : List UInt8) (iov : List Iovec) (behind : Nat → Iovec) :
    Option (Except Fault Outcome) :=
  if iov.length = 0 then some (.ok ⟨0, none, dst, []⟩)
  else loop (copyTurn dst.length iov behind) fuel (start dst iov behind)

def Based (iov : List Iovec) : Prop := ∀ e ∈ iov, ∃ base, e.base = some base ∧ base.length = e.len

def total (iov : List Iovec) : Nat := (iov.map Iovec.len).sum

def contents (iov : List Iovec) : List UInt8 := iov.flatMap fun e => e.base.getD []

def Linearizes (dst : List UInt8) (iov : List Iovec) (behind : Nat → Iovec) : Prop :=
  ∃ fuel outcome, iovLinearize fuel dst iov behind = some (.ok outcome) ∧
    (outcome.ret = 0 ↔ total iov ≤ dst.length) ∧
    (outcome.ret = 0 → outcome.written = some (total iov : Int) ∧
      outcome.dst.take (total iov) = contents iov) ∧
    outcome.dst.length = dst.length ∧
    ∀ k ∈ outcome.reads, k < iov.length

def lowTotal (iov : List Iovec) : Nat := ((iov.take uintMod).map Iovec.low).sum

def LeftOver (dst : List UInt8) (iov : List Iovec) : Prop :=
  dst.length < lowTotal iov ∨
    uintMod ≤ iov.length ∧ 0 < lowTotal iov ∧ dst.length < total iov

/-! ## The turns -/

section Turns
variable (iov : List Iovec) (behind : Nat → Iovec)

/-- The element of a turn; the count starts again at the range of an `unsigned int`. -/
def elementAt (j : Nat) : Iovec := element iov behind (j % uintMod)

def consumed : Nat → Nat
  | 0 => 0
  | j + 1 => consumed j + (elementAt iov behind j).low

def copied : Nat → List UInt8
  | 0 => []
  | j + 1 => copied j ++ ((elementAt iov behind j).base.getD []).take (elementAt iov behind j).low

def readAt : Nat → List Nat
  | 0 => [0]
  | j + 1 => ((j + 1) % uintMod) :: readAt j

def stateAt (dst : List UInt8) (j : Nat) : State where
  i := j % uintMod
  cur := elementAt iov behind j
  rem := dst.length - consumed iov behind j
  data := consumed iov behind j
  dst := copied iov behind j ++ dst.drop (consumed iov behind j)
  reads := readAt j

end Turns

section Run
variable {dst : List UInt8} {iov : List Iovec} {behind : Nat → Iovec}

theorem uintMod_pos : 0 < uintMod := by
  unfold uintMod
  decide

theorem stateAt_zero : stateAt iov behind dst 0 = start dst iov behind := by
  simp only [stateAt, start, elementAt, consumed, copied, readAt, Nat.zero_mod, Nat.sub_zero,
    List.drop_zero, List.nil_append]

theorem consumed_mono {j k : Nat} (before : j ≤ k) :
    consumed iov behind j ≤ consumed iov behind k := by
  induction before with
  | refl => exact le_refl _
  | step _ ih =>
      rw [consumed]
      omega

def Inside (iov : List Iovec) (j : Nat) : Prop := ∀ t < j, t % uintMod < iov.length

theorem elementAt_based (based : Based iov) {j : Nat} (inside : j % uintMod < iov.length) :
    ∃ base, (elementAt iov behind j).base = some base ∧
      (elementAt iov behind j).low ≤ base.length := by
  have member : elementAt iov behind j ∈ iov := by
    rw [elementAt, element, List.getD_eq_getElem?_getD, List.getElem?_eq_getElem inside]
    exact List.getElem_mem inside
  obtain ⟨base, isBase, length⟩ := based _ member
  refine ⟨base, isBase, ?_⟩
  rw [length, Iovec.low]
  exact Nat.mod_le _ _

theorem copied_length (based : Based iov) {j : Nat} (inside : Inside iov j) :
    (copied iov behind j).length = consumed iov behind j := by
  induction j with
  | zero => rfl
  | succ j ih =>
      obtain ⟨base, isBase, enough⟩ := @elementAt_based _ behind based _ (inside j (by omega))
      rw [copied, List.length_append, ih (fun t before => inside t (by omega)), isBase,
        Option.getD_some, List.length_take, Nat.min_eq_left enough, consumed]

theorem turn_again (based : Based iov) {j : Nat} (inside : Inside iov (j + 1))
    (fits : consumed iov behind (j + 1) ≤ dst.length) :
    copyTurn dst.length iov behind (stateAt iov behind dst j) =
      .ok (.again (stateAt iov behind dst (j + 1))) := by
  obtain ⟨base, isBase, enough⟩ := @elementAt_based _ behind based _ (inside j (by omega))
  have length := @copied_length _ behind based j (fun t before => inside t (by omega))
  have here := inside j (by omega)
  rw [consumed] at fits
  have copy : memcpy (copied iov behind j ++ dst.drop (consumed iov behind j))
      (consumed iov behind j) base (elementAt iov behind j).low =
      .ok (copied iov behind (j + 1) ++ dst.drop (consumed iov behind (j + 1))) := by
    have room : (copied iov behind j ++ dst.drop (consumed iov behind j)).length = dst.length := by
      rw [List.length_append, length, List.length_drop]
      omega
    have front : (copied iov behind j ++ dst.drop (consumed iov behind j)).take
        (consumed iov behind j) = copied iov behind j := by
      rw [← length, List.take_left]
    have back : (copied iov behind j ++ dst.drop (consumed iov behind j)).drop
        (consumed iov behind j + (elementAt iov behind j).low) =
        dst.drop (consumed iov behind (j + 1)) := by
      rw [← List.drop_drop, ← length, List.drop_left, length, List.drop_drop, consumed]
    rw [memcpy, if_neg (by omega), if_neg (by omega), front, back, copied, isBase, Option.getD_some]
  have index : (j % uintMod + 1) % uintMod = (j + 1) % uintMod := Nat.mod_add_mod j uintMod 1
  rw [copyTurn, stateAt]
  dsimp only
  rw [if_pos ⟨here, by omega⟩, isBase]
  dsimp only
  rw [copy]
  simp only [bind, Except.bind, pure, Except.pure, index, stateAt, elementAt, readAt, consumed,
    Nat.sub_sub]

theorem turn_full {j : Nat} (here : j % uintMod < iov.length)
    (room : consumed iov behind j ≤ dst.length)
    (full : dst.length < consumed iov behind (j + 1)) :
    copyTurn dst.length iov behind (stateAt iov behind dst j) =
      .ok (.done ⟨-1, none, copied iov behind j ++ dst.drop (consumed iov behind j),
        readAt j⟩) := by
  rw [consumed] at full
  rw [copyTurn, stateAt]
  dsimp only
  rw [if_neg (by omega), if_pos (by omega)]

theorem turn_end {j : Nat} (atEnd : j % uintMod = iov.length)
    (room : consumed iov behind j ≤ dst.length) :
    copyTurn dst.length iov behind (stateAt iov behind dst j) =
      .ok (.done ⟨0, some (consumed iov behind j : Int),
        copied iov behind j ++ dst.drop (consumed iov behind j), readAt j⟩) := by
  have rest : (dst.length : Int) - (dst.length - consumed iov behind j : Nat) =
      consumed iov behind j := by omega
  rw [copyTurn, stateAt]
  dsimp only
  rw [if_neg (by omega), if_neg (by omega), rest]

theorem loop_stateAt (based : Based iov) {j : Nat} (inside : Inside iov j)
    (fits : consumed iov behind j ≤ dst.length) (outcome : Except Fault Outcome) :
    Ends (copyTurn dst.length iov behind) (start dst iov behind) outcome ↔
      Ends (copyTurn dst.length iov behind) (stateAt iov behind dst j) outcome := by
  induction j with
  | zero => rw [stateAt_zero]
  | succ j ih =>
      have earlier := ih (fun t before => inside t (by omega))
        ((consumed_mono (Nat.le_succ j)).trans fits)
      rw [earlier]
      exact ends_again (turn_again based inside fits)

theorem readAt_inside {j : Nat} (inside : Inside iov (j + 1)) : ∀ k ∈ readAt j, k < iov.length := by
  induction j with
  | zero =>
      intro k member
      have zero := inside 0 Nat.one_pos
      rw [Nat.zero_mod] at zero
      rw [List.mem_singleton.mp member]
      exact zero
  | succ j ih =>
      intro k member
      obtain isHere | before := List.mem_cons.mp member
      · rw [isHere]
        exact inside (j + 1) (Nat.lt_succ_self _)
      · exact ih (fun t before => inside t (by omega)) k before

/-- A vector that does not fit is given up before the element behind it is read. -/
theorem ends_full (based : Based iov) {j : Nat} (inside : Inside iov j)
    (exceeds : dst.length < consumed iov behind j) :
    ∃ outcome, Ends (copyTurn dst.length iov behind) (start dst iov behind) (.ok outcome) ∧
      outcome.ret = -1 ∧ outcome.dst.length = dst.length ∧
      ∀ k ∈ outcome.reads, k < iov.length := by
  induction j with
  | zero => exact absurd exceeds (Nat.not_lt_zero _)
  | succ j ih =>
      have earlier : Inside iov j := fun t before => inside t (by omega)
      by_cases already : dst.length < consumed iov behind j
      · exact ih earlier already
      have room : consumed iov behind j ≤ dst.length := by omega
      have turn := turn_full (inside j (Nat.lt_succ_self j)) room exceeds
      refine ⟨_, (loop_stateAt based earlier room _).mpr ((ends_done turn).mpr rfl), rfl, ?_,
        readAt_inside inside⟩
      rw [List.length_append, copied_length based earlier, List.length_drop]
      omega

theorem elementAt_eq {j : Nat} (inside : j < iov.length) (small : j < uintMod) :
    elementAt iov behind j = iov[j] := by
  rw [elementAt, Nat.mod_eq_of_lt small, element, List.getD_eq_getElem?_getD,
    List.getElem?_eq_getElem inside, Option.getD_some]

theorem inside_short (short : iov.length < uintMod) : Inside iov iov.length := by
  intro t before
  rw [Nat.mod_eq_of_lt (by omega)]
  exact before

theorem inside_long (long : uintMod ≤ iov.length) (j : Nat) : Inside iov j :=
  fun t _ => (Nat.mod_lt t uintMod_pos).trans_le long

theorem consumed_take {j : Nat} (inside : j ≤ iov.length) (small : j ≤ uintMod) :
    consumed iov behind j = ((iov.take j).map Iovec.low).sum := by
  induction j with
  | zero => rfl
  | succ j ih =>
      rw [consumed, ih (by omega) (by omega), elementAt_eq inside small, List.take_add_one,
        List.getElem?_eq_getElem inside, Option.toList_some, List.map_append, List.sum_append,
        List.map_singleton, List.sum_singleton]

theorem lowTotal_eq (iov : List Iovec) (behind : Nat → Iovec) :
    lowTotal iov = consumed iov behind (min iov.length uintMod) := by
  rw [consumed_take (Nat.min_le_left _ _) (Nat.min_le_right _ _), lowTotal]
  obtain short | long := Nat.le_total iov.length uintMod
  · rw [Nat.min_eq_left short, List.take_length, List.take_of_length_le short]
  · rw [Nat.min_eq_right long]

theorem lowTotal_le (iov : List Iovec) : lowTotal iov ≤ total iov := by
  have whole : total iov = total (iov.take uintMod) + total (iov.drop uintMod) := by
    rw [total, total, total, ← List.sum_append, ← List.map_append, List.take_append_drop]
  have lows : ∀ list : List Iovec, (list.map Iovec.low).sum ≤ total list := by
    intro list
    apply List.sum_le_sum
    intro e _
    exact Nat.mod_le _ _
  rw [whole, lowTotal]
  exact (lows _).trans (Nat.le_add_right _ _)

theorem consumed_lap (j : Nat) :
    consumed iov behind (uintMod + j) = consumed iov behind uintMod + consumed iov behind j := by
  induction j with
  | zero => rfl
  | succ j ih =>
      have same : elementAt iov behind (uintMod + j) = elementAt iov behind j := by
        rw [elementAt, elementAt, Nat.add_mod_left]
      rw [← Nat.add_assoc, consumed, ih, consumed, same, Nat.add_assoc]

theorem consumed_laps (k : Nat) :
    consumed iov behind (uintMod * k) = k * consumed iov behind uintMod := by
  induction k with
  | zero => rw [Nat.mul_zero, Nat.zero_mul, consumed]
  | succ k ih => rw [Nat.mul_succ, Nat.add_comm, consumed_lap, ih, Nat.succ_mul, Nat.add_comm]

theorem consumed_over (positive : 0 < consumed iov behind uintMod) :
    dst.length < consumed iov behind (uintMod * (dst.length + 1)) := by
  have more := Nat.mul_le_mul_left (dst.length + 1) positive
  rw [consumed_laps]
  omega

theorem never_full (based : Based iov) (long : uintMod ≤ iov.length)
    (none : consumed iov behind uintMod = 0) (outcome : Except Fault Outcome) :
    ¬Ends (copyTurn dst.length iov behind) (start dst iov behind) outcome := by
  have nothing : ∀ j, consumed iov behind j = 0 := by
    intro j
    have laps := @consumed_laps iov behind j
    rw [none, Nat.mul_zero] at laps
    have below : j ≤ uintMod * j := Nat.le_mul_of_pos_left j uintMod_pos
    have mono := @consumed_mono iov behind _ _ below
    omega
  rw [← stateAt_zero]
  refine @never_ends _ _ _ _ (fun s => ∃ j, s = stateAt iov behind dst j) ?_ _ ⟨0, rfl⟩ outcome
  intro s isState
  obtain ⟨j, isState⟩ := isState
  rw [isState]
  have fits : consumed iov behind (j + 1) ≤ dst.length := (nothing (j + 1)).trans_le (Nat.zero_le _)
  exact ⟨_, turn_again based (inside_long long _) fits, j + 1, rfl⟩

/-! ## The function -/

theorem returns_iff (nonempty : iov ≠ []) (outcome : Outcome) :
    (∃ fuel, iovLinearize fuel dst iov behind = some (.ok outcome)) ↔
      Ends (copyTurn dst.length iov behind) (start dst iov behind) (.ok outcome) := by
  have length : iov.length ≠ 0 := fun none => nonempty (List.length_eq_zero_iff.mp none)
  simp only [iovLinearize, if_neg length, Ends]

theorem ends_all (based : Based iov) (short : iov.length < uintMod)
    (fits : lowTotal iov ≤ dst.length) :
    Ends (copyTurn dst.length iov behind) (start dst iov behind)
      (.ok ⟨0, some (lowTotal iov : Int),
        copied iov behind iov.length ++ dst.drop (lowTotal iov), readAt iov.length⟩) := by
  have all := lowTotal_eq iov behind
  rw [Nat.min_eq_left (Nat.le_of_lt short)] at all
  rw [all] at fits ⊢
  rw [loop_stateAt based (inside_short short) fits,
    ends_done (turn_end (Nat.mod_eq_of_lt short) fits)]

theorem readAt_head (j : Nat) : j % uintMod ∈ readAt j := by
  cases j with
  | zero =>
      rw [Nat.zero_mod]
      exact List.mem_singleton.mpr rfl
  | succ j => exact List.mem_cons_self

theorem linearizes_of_full (nonempty : iov ≠ []) (based : Based iov) {j : Nat}
    (inside : Inside iov j) (exceeds : dst.length < consumed iov behind j)
    (tooLong : dst.length < total iov) : Linearizes dst iov behind := by
  obtain ⟨outcome, ends, isError, size, reads⟩ := ends_full based inside exceeds
  obtain ⟨fuel, returned⟩ := (returns_iff nonempty outcome).mpr ends
  have notZero : outcome.ret ≠ 0 := by
    rw [isError]
    decide
  refine ⟨fuel, outcome, returned, ?_, fun zero => absurd zero notZero, size, reads⟩
  exact ⟨fun zero => absurd zero notZero, fun fits => absurd tooLong (by omega)⟩

theorem not_linearizes (nonempty : iov ≠ []) (based : Based iov) (short : iov.length < uintMod)
    (fits : lowTotal iov ≤ dst.length) : ¬Linearizes dst iov behind := by
  intro linearizes
  obtain ⟨fuel, outcome, returned, _, _, _, reads⟩ := linearizes
  have ends := (returns_iff nonempty outcome).mp ⟨fuel, returned⟩
  have same := ends.unique (ends_all based short fits)
  rw [Except.ok.injEq] at same
  rw [same] at reads
  have behindRead := reads _ (readAt_head iov.length)
  rw [Nat.mod_eq_of_lt short] at behindRead
  exact Nat.lt_irrefl _ behindRead

/-- The buffer takes the vector in order and the vector alone is read exactly where an element
is left over. -/
theorem linearizes_iff (nonempty : iov ≠ []) (based : Based iov) :
    Linearizes dst iov behind ↔ LeftOver dst iov := by
  have all := lowTotal_eq iov behind
  have below := lowTotal_le iov
  constructor
  · intro linearizes
    by_contra whole
    rw [LeftOver, not_or, not_lt] at whole
    obtain ⟨fits, noLap⟩ := whole
    by_cases short : iov.length < uintMod
    · exact not_linearizes nonempty based short fits linearizes
    · obtain ⟨fuel, outcome, returned, iff, _, _, _⟩ := linearizes
      have ends := (returns_iff nonempty outcome).mp ⟨fuel, returned⟩
      have long : uintMod ≤ iov.length := by omega
      rw [Nat.min_eq_right long] at all
      by_cases none : lowTotal iov = 0
      · exact never_full based long (all.symm.trans none) _ ends
      · have exceeds := @consumed_over dst iov behind (by omega)
        obtain ⟨full, fullEnds, isError, _, _⟩ := ends_full based (inside_long long _) exceeds
        have same := ends.unique fullEnds
        rw [Except.ok.injEq] at same
        rw [same, isError] at iff
        exact noLap ⟨long, by omega, not_le.mp fun fitting => by simpa using iff.mpr fitting⟩
  · intro leftOver
    obtain exceeds | ⟨long, positive, exceeds⟩ := leftOver
    · refine linearizes_of_full nonempty based (fun t before => ?_) (all ▸ exceeds) (by omega)
      have least := Nat.mod_le t uintMod
      omega
    · rw [Nat.min_eq_right long] at all
      have full := @consumed_over dst iov behind (by omega)
      exact linearizes_of_full nonempty based (inside_long long _) full exceeds

end Run

theorem based_singleton (base : List UInt8) : Based [⟨some base, base.length⟩] := by
  intro e member
  rw [List.mem_singleton.mp member]
  exact ⟨base, rfl, rfl⟩

/-- Two bytes into one: the element behind the vector is not read. -/
theorem linearizes_left_over : Linearizes [0] [⟨some [7, 8], 2⟩] (fun _ => ⟨none, 0⟩) :=
  (@linearizes_iff [0] [⟨some [7, 8], 2⟩] (fun _ => ⟨none, 0⟩) (List.cons_ne_nil _ _)
    (based_singleton [7, 8])).mpr (.inl (by unfold lowTotal Iovec.low uintMod; decide))

/-- One byte into one: the byte is copied, and the element behind the vector is read. -/
theorem fitting_overread :
    iovLinearize 2 [0] [⟨some [7], 1⟩] (fun _ => ⟨none, 0⟩) =
        some (.ok ⟨0, some 1, [7], [1, 0]⟩) ∧
      ¬Linearizes [0] [⟨some [7], 1⟩] (fun _ => ⟨none, 0⟩) := by
  constructor
  · simp [iovLinearize, loop, copyTurn, start, element, memcpy, Iovec.low, uintMod]
  · apply not_linearizes (List.cons_ne_nil _ _) (based_singleton [7])
    · unfold uintMod
      decide
    · unfold lowTotal Iovec.low uintMod
      decide

section Copied
variable {dst : List UInt8} {iov : List Iovec} {behind : Nat → Iovec}

theorem lowTotal_small (short : iov.length < uintMod) (small : ∀ e ∈ iov, e.len < uintMod) :
    lowTotal iov = total iov := by
  have lows : iov.map Iovec.low = iov.map Iovec.len :=
    List.map_congr_left fun e member => Nat.mod_eq_of_lt (small e member)
  rw [lowTotal, List.take_of_length_le (Nat.le_of_lt short), lows, total]

theorem copied_take (based : Based iov) (short : iov.length < uintMod)
    (small : ∀ e ∈ iov, e.len < uintMod) {j : Nat} (inside : j ≤ iov.length) :
    copied iov behind j = contents (iov.take j) := by
  induction j with
  | zero => rfl
  | succ j ih =>
      have here := @elementAt_eq iov behind j inside (by omega)
      obtain ⟨base, isBase, length⟩ := based iov[j] (List.getElem_mem inside)
      have low : iov[j].low = base.length := by
        rw [length, Iovec.low, Nat.mod_eq_of_lt (small _ (List.getElem_mem inside))]
      have bytes : contents [iov[j]] = base := by
        simp only [contents, List.flatMap_cons, List.flatMap_nil, isBase, Option.getD_some,
          List.append_nil]
      rw [copied, ih (by omega), here, isBase, Option.getD_some, low, List.take_length,
        List.take_add_one, List.getElem?_eq_getElem inside, Option.toList_some]
      conv_lhs => rw [← bytes]
      exact List.flatMap_append.symm

theorem iovLinearize_copies (nonempty : iov ≠ []) (based : Based iov) (short : iov.length < uintMod)
    (small : ∀ e ∈ iov, e.len < uintMod) :
    ∃ fuel outcome, iovLinearize fuel dst iov behind = some (.ok outcome) ∧
      (outcome.ret = 0 ↔ total iov ≤ dst.length) ∧
      (outcome.ret = 0 → outcome.written = some (total iov : Int) ∧
        outcome.dst = contents iov ++ dst.drop (total iov)) := by
  have sum := lowTotal_small short small
  by_cases fits : total iov ≤ dst.length
  · obtain ⟨fuel, returned⟩ := (returns_iff nonempty _).mpr
      (@ends_all dst iov behind based short (sum.trans_le fits))
    have bytes := @copied_take iov behind based short small _ (le_refl _)
    rw [List.take_length] at bytes
    rw [sum, bytes] at returned
    exact ⟨fuel, _, returned, iff_of_true rfl fits, fun _ => ⟨rfl, rfl⟩⟩
  · have all := lowTotal_eq iov behind
    rw [Nat.min_eq_left (Nat.le_of_lt short), sum] at all
    obtain ⟨outcome, ends, isError, _, _⟩ :=
      @ends_full dst iov behind based _ (inside_short short) (by omega)
    obtain ⟨fuel, returned⟩ := (returns_iff nonempty outcome).mpr ends
    have notZero : outcome.ret ≠ 0 := by
      rw [isError]
      decide
    exact ⟨fuel, outcome, returned, iff_of_false notZero fits, fun zero => absurd zero notZero⟩

end Copied

end OaiPmip.Linearize
