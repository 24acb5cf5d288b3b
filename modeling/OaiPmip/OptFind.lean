import OaiPmip.Lib.Loops
import OaiPmip.Lib.Wire

/-!
# Options of an extension header: inet6_opt_find.c

`inet6_opt_find` goes from option to option of a buffer.  Its pointers are distances
from `extbuf`, and a read that is not in the buffer is a fault.
-/

set_option autoImplicit false

namespace OaiPmip.OptFind

open OaiPmip.Loops OaiPmip.Wire

/-- A read outside the buffer, by its distance from `extbuf`. -/
inductive Fault where
  | outside (i : Int)
  deriving DecidableEq

/-- The result with `*databufp` and `*lenp` where they are stored; `some none` is `NULL`. -/
structure Outcome where
  ret : Int
  databuf : Option (Option Int)
  len : Option Nat
  deriving DecidableEq

def failed : Outcome := ⟨-1, none, none⟩

def missing : Outcome := ⟨-1, some none, none⟩

def read (buf : List UInt8) (i : Int) : Except Fault UInt8 :=
  if 0 ≤ i ∧ i < buf.length then .ok (buf.getD i.toNat 0) else .error (.outside i)

/-- One turn of `while (optp <= tailp)`. -/
def searchTurn (buf : List UInt8) (type : UInt8) (optp : Int) :
    Except Fault (Turn Int Outcome) :=
  if optp ≤ buf.length then do
    let kind ← read buf optp
    if kind = 0 then return .again (optp + 1)
    let len ← read buf (optp + 1)
    if optp + len.toNat + 2 > buf.length then return .done failed
    if kind = type then
      return .done ⟨int32 (len.toNat + optp), some (some (optp + 2)), some len.toNat⟩
    return .again (optp + (2 + len.toNat))
  else return .done missing

/-- The comparison with `extlen` takes an `int` for a `socklen_t`. -/
def inet6OptFind (fuel : Nat) (buf : List UInt8) (offset : Int) (type : UInt8) :
    Option (Except Fault Outcome) :=
  if buf.length < 2 ∨ (buf.length : Int) ≤ offset % 2 ^ 32 then some (.ok failed)
  else
    match read buf 1 with
    | .error fault => some (.error fault)
    | .ok hdrlen =>
        if buf.length < (hdrlen.toNat + 1) <<< 3 then some (.ok failed)
        else loop (searchTurn buf type) fuel (int32 (2 + offset))

def kindAt (buf : List UInt8) (i : Nat) : UInt8 := buf.getD i 0

def lenAt (buf : List UInt8) (i : Nat) : Nat := (buf.getD (i + 1) 0).toNat

def Rejected (buf : List UInt8) (offset : Nat) : Prop :=
  buf.length < 2 ∨ buf.length ≤ offset ∨ buf.length < (lenAt buf 0 + 1) * 8

/-- Padding and options of other types lead from one place to another. -/
inductive Reaches (buf : List UInt8) (type : UInt8) : Nat → Nat → Prop where
  | here (p : Nat) : Reaches buf type p p
  | pad1 {s p : Nat} (inside : s < buf.length) (isPad : kindAt buf s = 0)
      (later : Reaches buf type (s + 1) p) : Reaches buf type s p
  | option {s p : Nat} (inside : s + 2 + lenAt buf s ≤ buf.length) (notPad : kindAt buf s ≠ 0)
      (other : kindAt buf s ≠ type) (later : Reaches buf type (s + 2 + lenAt buf s) p) :
      Reaches buf type s p

/-- The first option of a type from an offset on, with what is before it well formed. -/
structure First (buf : List UInt8) (offset : Nat) (type : UInt8) (p : Nat) : Prop where
  accepted : ¬Rejected buf offset
  reached : Reaches buf type (2 + offset) p
  notPad : kindAt buf p ≠ 0
  isType : kindAt buf p = type
  inside : p + 2 + lenAt buf p ≤ buf.length

structure Finds (buf : List UInt8) (offset : Nat) (type : UInt8) : Prop where
  ends : ∃ outcome, ∀ fuel > buf.length + 2, inet6OptFind fuel buf offset type = some (.ok outcome)
  found : ∀ p, First buf offset type p → ∀ fuel > buf.length + 2,
    inet6OptFind fuel buf offset type =
      some (.ok ⟨(p + lenAt buf p : Nat), some (some ((p + 2 : Nat) : Int)), some (lenAt buf p)⟩)
  continues : ∀ p, First buf offset type p → ∀ next fuel,
    inet6OptFind fuel buf (p + lenAt buf p : Nat) next =
      loop (searchTurn buf next) fuel (p + 2 + lenAt buf p : Nat)

/-- An option of the type or one that does not fit comes before the end of the buffer. -/
def Stops (buf : List UInt8) (offset : Nat) (type : UInt8) : Prop :=
  Rejected buf offset ∨ 2 + offset < 2 ^ 31 ∧ (buf.length < 2 + offset ∨
    ∃ p, Reaches buf type (2 + offset) p ∧ p + 1 < buf.length ∧ kindAt buf p ≠ 0 ∧
      (buf.length < p + 2 + lenAt buf p ∨
        kindAt buf p = type ∧ p + 2 + lenAt buf p < 2 ^ 31))

/-! ## One turn -/

section Turn
variable {buf : List UInt8} {type : UInt8} {s : Nat}

theorem read_inside (inside : s < buf.length) : read buf (s : Int) = .ok (kindAt buf s) := by
  rw [read, if_pos (by omega), Int.toNat_natCast, kindAt]

theorem read_outside (outside : buf.length ≤ s) : read buf (s : Int) = .error (.outside s) := by
  rw [read, if_neg (by omega)]

theorem read_len (inside : s + 1 < buf.length) :
    ∃ x : UInt8, read buf ((s : Int) + 1) = .ok x ∧ x.toNat = lenAt buf s :=
  ⟨kindAt buf (s + 1), read_inside inside, rfl⟩

theorem turn_behind (behind : buf.length < s) :
    searchTurn buf type s = .ok (.done missing) := by
  rw [searchTurn, if_neg (by omega)]
  rfl

theorem turn_atEnd (atEnd : buf.length = s) :
    searchTurn buf type s = .error (.outside s) := by
  rw [searchTurn, if_pos (by omega), read_outside (by omega)]
  rfl

theorem turn_pad1 (inside : s < buf.length) (isPad : kindAt buf s = 0) :
    searchTurn buf type s = .ok (.again ((s + 1 : Nat) : Int)) := by
  rw [searchTurn, if_pos (by omega), read_inside inside, isPad]
  rfl

theorem turn_lastByte (last : s + 1 = buf.length) (notPad : kindAt buf s ≠ 0) :
    searchTurn buf type s = .error (.outside ((s + 1 : Nat) : Int)) := by
  have second : read buf ((s : Int) + 1) = .error (.outside ((s + 1 : Nat) : Int)) :=
    @read_outside buf (s + 1) (by omega)
  rw [searchTurn, if_pos (by omega), read_inside (by omega)]
  simp only [bind, Except.bind, if_neg notPad, second]

theorem turn_short (inside : s + 1 < buf.length) (notPad : kindAt buf s ≠ 0)
    (short : buf.length < s + 2 + lenAt buf s) :
    searchTurn buf type s = .ok (.done failed) := by
  obtain ⟨x, second, isLen⟩ := read_len inside
  rw [searchTurn, if_pos (by omega), read_inside (by omega)]
  simp only [bind, Except.bind, if_neg notPad, second, isLen]
  rw [if_pos (by omega)]
  rfl

theorem turn_found (fits : s + 2 + lenAt buf s ≤ buf.length) (notPad : kindAt buf s ≠ 0)
    (isType : kindAt buf s = type) : searchTurn buf type s =
      .ok (.done ⟨int32 (s + lenAt buf s : Nat), some (some ((s + 2 : Nat) : Int)),
        some (lenAt buf s)⟩) := by
  obtain ⟨x, second, isLen⟩ := @read_len buf s (by omega)
  have sum : (lenAt buf s : Int) + s = (s + lenAt buf s : Nat) := by omega
  rw [searchTurn, if_pos (by omega), read_inside (by omega)]
  simp only [bind, Except.bind, if_neg notPad, second, isLen, if_pos isType, sum]
  rw [if_neg (by omega)]
  rfl

theorem turn_other (fits : s + 2 + lenAt buf s ≤ buf.length) (notPad : kindAt buf s ≠ 0)
    (other : kindAt buf s ≠ type) : searchTurn buf type s =
      .ok (.again ((s + 2 + lenAt buf s : Nat) : Int)) := by
  obtain ⟨x, second, isLen⟩ := @read_len buf s (by omega)
  have next : (s : Int) + (2 + lenAt buf s) = (s + 2 + lenAt buf s : Nat) := by omega
  rw [searchTurn, if_pos (by omega), read_inside (by omega)]
  simp only [bind, Except.bind, if_neg notPad, second, isLen, if_neg other, next]
  rw [if_neg (by omega)]
  rfl

/-- From a place that is not in front of the buffer only bytes behind it are missed. -/
theorem turn_fault {i : Int} (fault : searchTurn buf type s = .error (.outside i)) :
    (buf.length : Int) ≤ i := by
  by_cases behind : buf.length < s
  · rw [turn_behind behind] at fault
    cases fault
  by_cases atEnd : buf.length = s
  · rw [turn_atEnd atEnd] at fault
    cases fault
    omega
  by_cases isPad : kindAt buf s = 0
  · rw [turn_pad1 (by omega) isPad] at fault
    cases fault
  by_cases lastByte : s + 1 = buf.length
  · rw [turn_lastByte lastByte isPad] at fault
    cases fault
    omega
  by_cases short : buf.length < s + 2 + lenAt buf s
  · rw [turn_short (by omega) isPad short] at fault
    cases fault
  by_cases isType : kindAt buf s = type
  · rw [turn_found (by omega) isPad isType] at fault
    cases fault
  · rw [turn_other (by omega) isPad isType] at fault
    cases fault

/-- A turn in the buffer is the last one at an option that does not fit or is of the type. -/
theorem turn_done {outcome : Outcome} (inside : s ≤ buf.length)
    (done : searchTurn buf type s = .ok (.done outcome)) :
    s + 1 < buf.length ∧ kindAt buf s ≠ 0 ∧
      (buf.length < s + 2 + lenAt buf s ∨ kindAt buf s = type) := by
  have notEnd : buf.length ≠ s := by
    intro atEnd
    rw [turn_atEnd atEnd] at done
    cases done
  have notPad : kindAt buf s ≠ 0 := by
    intro isPad
    rw [turn_pad1 (by omega) isPad] at done
    cases done
  have notLast : s + 1 ≠ buf.length := by
    intro lastByte
    rw [turn_lastByte lastByte notPad] at done
    cases done
  refine ⟨by omega, notPad, ?_⟩
  by_cases short : buf.length < s + 2 + lenAt buf s
  · exact .inl short
  · refine .inr ?_
    by_contra other
    rw [turn_other (by omega) notPad other] at done
    cases done

end Turn

def leaves : Except Fault (Turn Int Outcome) → Option (Except Fault Outcome)
  | .ok (.again _) => none
  | .ok (.done outcome) => some (.ok outcome)
  | .error fault => some (.error fault)

theorem leaves_ok {turn : Except Fault (Turn Int Outcome)} {outcome : Outcome}
    (last : leaves turn = some (.ok outcome)) : turn = .ok (.done outcome) := by
  cases turn with
  | error fault => cases last
  | ok turned =>
      cases turned with
      | again next => cases last
      | done other =>
          cases last
          rfl

section Search
variable {buf : List UInt8} {type : UInt8}

theorem Reaches.le {s p : Nat} (reaches : Reaches buf type s p) (inside : s ≤ buf.length) :
    s ≤ p ∧ p ≤ buf.length := by
  induction reaches with
  | here p => exact ⟨le_refl p, inside⟩
  | pad1 before _ _ ih =>
      have later := ih (by omega)
      exact ⟨by omega, later.2⟩
  | option fits _ _ _ ih =>
      have later := ih fits
      exact ⟨by omega, later.2⟩

theorem Reaches.behind {s p : Nat} (reaches : Reaches buf type s p) (behind : buf.length < s) :
    p = s := by
  cases reaches with
  | here => rfl
  | pad1 inside => omega
  | option inside => omega

theorem Reaches.unique {s p q : Nat} (reaches : Reaches buf type s p)
    {first second : Except Fault Outcome}
    (here : leaves (searchTurn buf type p) = some first) (other : Reaches buf type s q)
    (there : leaves (searchTurn buf type q) = some second) : p = q := by
  induction reaches with
  | here p =>
      cases other with
      | here => rfl
      | pad1 inside isPad later => rw [turn_pad1 inside isPad] at here; cases here
      | option fits notPad other later => rw [turn_other fits notPad other] at here; cases here
  | pad1 inside isPad later ih =>
      cases other with
      | here => rw [turn_pad1 inside isPad] at there; cases there
      | pad1 _ _ later => exact ih here later
      | option _ notPad _ _ => exact absurd isPad notPad
  | option fits notPad other' later ih =>
      cases other with
      | here => rw [turn_other fits notPad other'] at there; cases there
      | pad1 _ isPad _ => exact absurd isPad notPad
      | option _ _ _ later => exact ih here later

theorem loop_reaches {s p : Nat} (reaches : Reaches buf type s p) {result : Except Fault Outcome}
    (last : leaves (searchTurn buf type p) = some result) {fuel : Nat} (enough : p < s + fuel) :
    loop (searchTurn buf type) fuel (s : Int) = some result := by
  induction reaches generalizing fuel with
  | here p =>
      obtain ⟨fuel, rfl⟩ : ∃ k, fuel = k + 1 := ⟨fuel - 1, by omega⟩
      rw [loop]
      cases turn : searchTurn buf type p with
      | error fault =>
          rw [turn] at last
          exact last
      | ok turned =>
          rw [turn] at last
          cases turned with
          | again next => cases last
          | done outcome => exact last
  | @pad1 s p inside isPad later ih =>
      have ahead := (later.le inside).1
      obtain ⟨fuel, rfl⟩ : ∃ k, fuel = k + 1 := ⟨fuel - 1, by omega⟩
      rw [loop, turn_pad1 inside isPad]
      exact ih last (by omega)
  | @option s p fits notPad other later ih =>
      have ahead := (later.le fits).1
      obtain ⟨fuel, rfl⟩ : ∃ k, fuel = k + 1 := ⟨fuel - 1, by omega⟩
      rw [loop, turn_other fits notPad other]
      exact ih last (by omega)

theorem reaches_last (s : Nat) (inside : s ≤ buf.length) :
    ∃ p result, Reaches buf type s p ∧ leaves (searchTurn buf type p) = some result := by
  by_cases atEnd : buf.length = s
  · exact ⟨s, _, .here s, by rw [turn_atEnd atEnd]; rfl⟩
  by_cases isPad : kindAt buf s = 0
  · obtain ⟨p, result, reached, last⟩ := reaches_last (s + 1) (by omega)
    exact ⟨p, result, .pad1 (by omega) isPad reached, last⟩
  by_cases lastByte : s + 1 = buf.length
  · exact ⟨s, _, .here s, by rw [turn_lastByte lastByte isPad]; rfl⟩
  by_cases short : buf.length < s + 2 + lenAt buf s
  · exact ⟨s, _, .here s, by rw [turn_short (by omega) isPad short]; rfl⟩
  have fits : s + 2 + lenAt buf s ≤ buf.length := by omega
  by_cases isType : kindAt buf s = type
  · exact ⟨s, _, .here s, by rw [turn_found fits isPad isType]; rfl⟩
  · obtain ⟨p, result, reached, last⟩ := reaches_last (s + 2 + lenAt buf s) fits
    exact ⟨p, result, .option fits isPad isType reached, last⟩
termination_by buf.length - s

end Search

/-! ## The function -/

section Function
variable {buf : List UInt8} {offset : Nat} {type : UInt8}

theorem inet6OptFind_rejected (length : buf.length < 2 ^ 32) (offsetInt : offset < 2 ^ 31)
    (rejected : Rejected buf offset) (fuel : Nat) :
    inet6OptFind fuel buf offset type = some (.ok failed) := by
  have modulo : (offset : Int) % 2 ^ 32 = offset := Int.emod_eq_of_lt (by omega) (by omega)
  rw [inet6OptFind, modulo]
  by_cases early : buf.length < 2 ∨ (buf.length : Int) ≤ offset
  · rw [if_pos early]
  · have header : read buf 1 = .ok (kindAt buf 1) := @read_inside buf 1 (by omega)
    have short : buf.length < ((kindAt buf 1).toNat + 1) <<< 3 := by
      rw [Nat.shiftLeft_eq]
      obtain tiny | tooFar | short := rejected
      · omega
      · omega
      · exact short
    rw [if_neg early, header]
    exact if_pos short

theorem inet6OptFind_accepted (offsetInt : offset < 2 ^ 31) (accepted : ¬Rejected buf offset)
    (fuel : Nat) : inet6OptFind fuel buf offset type =
      loop (searchTurn buf type) fuel (int32 (2 + offset)) := by
  have modulo : (offset : Int) % 2 ^ 32 = offset := Int.emod_eq_of_lt (by omega) (by omega)
  simp only [Rejected, not_or, not_lt, not_le] at accepted
  have header : read buf 1 = .ok (kindAt buf 1) := @read_inside buf 1 (by omega)
  have fits : ¬buf.length < ((kindAt buf 1).toNat + 1) <<< 3 := by
    rw [Nat.shiftLeft_eq]
    exact Nat.not_lt.mpr accepted.2.2
  rw [inet6OptFind, modulo, if_neg (by omega), header]
  exact if_neg fits

theorem start_small (small : 2 + offset < 2 ^ 31) :
    int32 (2 + offset) = ((2 + offset : Nat) : Int) := by
  rw [int32_small (by omega) (by omega)]
  omega

/-- An `int` that runs over leads in front of the buffer. -/
theorem loop_wrapped {start : Nat} (large : 2 ^ 31 ≤ start) (fits : start < 2 ^ 32) (fuel : Nat) :
    loop (searchTurn buf type) (fuel + 1) (int32 start) =
      some (.error (.outside ((start : Int) - 2 ^ 32))) := by
  have wrapped : int32 start = (start : Int) - 2 ^ 32 := by
    have turned : ((start : Int) - 2 ^ 32).bmod (2 ^ 32) = (start : Int).bmod (2 ^ 32) :=
      Int.sub_bmod_right _ _
    rw [int32, ← turned]
    exact Int.bmod_eq_of_le (by omega) (by omega)
  have outside : read buf ((start : Int) - 2 ^ 32) = .error (.outside ((start : Int) - 2 ^ 32)) :=
    if_neg (by omega)
  rw [wrapped, loop, searchTurn, if_pos (by omega), outside]
  rfl

theorem inet6OptFind_last (offsetInt : offset < 2 ^ 31) (accepted : ¬Rejected buf offset)
    (small : 2 + offset < 2 ^ 31) {p : Nat} (reached : Reaches buf type (2 + offset) p)
    {result : Except Fault Outcome} (last : leaves (searchTurn buf type p) = some result)
    {fuel : Nat} (enough : p ≤ buf.length + 1) (more : fuel > buf.length + 2) :
    inet6OptFind fuel buf offset type = some result := by
  rw [inet6OptFind_accepted offsetInt accepted, start_small small]
  exact loop_reaches reached last (by omega)

theorem First.last {p : Nat} (first : First buf offset type p) :
    leaves (searchTurn buf type p) =
      some (.ok ⟨int32 (p + lenAt buf p : Nat), some (some ((p + 2 : Nat) : Int)),
        some (lenAt buf p)⟩) := by
  rw [turn_found first.inside first.notPad first.isType]
  rfl

theorem continues_of_small {p : Nat} (first : First buf offset type p)
    (small : p + 2 + lenAt buf p < 2 ^ 31) (next : UInt8) (fuel : Nat) :
    inet6OptFind fuel buf (p + lenAt buf p : Nat) next =
      loop (searchTurn buf next) fuel (p + 2 + lenAt buf p : Nat) := by
  have inside := first.inside
  have accepted : ¬Rejected buf (p + lenAt buf p) := by
    have before := first.accepted
    simp only [Rejected, not_or] at before ⊢
    exact ⟨before.1, by omega, before.2.2⟩
  have start : 2 + (p + lenAt buf p) = p + 2 + lenAt buf p := by omega
  rw [inet6OptFind_accepted (by omega) accepted, start_small (by omega), start]

/-- Past the range of an `int` the next search starts in front of the buffer. -/
theorem not_continues {p : Nat} (first : First buf offset type p)
    (result : p + lenAt buf p < 2 ^ 31) (large : 2 ^ 31 ≤ p + 2 + lenAt buf p) :
    inet6OptFind 1 buf (p + lenAt buf p : Nat) type ≠
      loop (searchTurn buf type) 1 (p + 2 + lenAt buf p : Nat) := by
  have inside := first.inside
  have accepted : ¬Rejected buf (p + lenAt buf p) := by
    have before := first.accepted
    simp only [Rejected, not_or] at before ⊢
    exact ⟨before.1, by omega, before.2.2⟩
  have start : (2 : Int) + (p + lenAt buf p : Nat) = (p + 2 + lenAt buf p : Nat) := by omega
  rw [inet6OptFind_accepted result accepted, start, loop_wrapped large (by omega)]
  intro same
  cases turn : searchTurn buf type ((p + 2 + lenAt buf p : Nat) : Int) with
  | error fault =>
      obtain ⟨i⟩ := fault
      have behind := turn_fault turn
      simp only [loop, turn, Option.some.injEq, Except.error.injEq, Fault.outside.injEq] at same
      omega
  | ok turned => cases turned <;> simp only [loop, turn, reduceCtorEq, Option.some.injEq] at same

theorem finds_nothing {outcome : Outcome} (none : ∀ p, ¬First buf offset type p)
    (ends : ∀ fuel > buf.length + 2,
      inet6OptFind fuel buf offset type = some (.ok outcome)) : Finds buf offset type where
  ends := ⟨outcome, ends⟩
  found := fun p first => absurd first (none p)
  continues := fun p first => absurd first (none p)

theorem finds_first (offsetInt : offset < 2 ^ 31) {p : Nat} (first : First buf offset type p)
    (fits : p + 2 + lenAt buf p < 2 ^ 31) : Finds buf offset type := by
  have only : ∀ q, First buf offset type q → q = p := by
    intro q other
    exact other.reached.unique other.last first.reached first.last
  have inside := first.inside
  have ahead : 2 + offset ≤ p := by
    by_cases behind : buf.length < 2 + offset
    · exact Nat.le_of_eq (first.reached.behind behind).symm
    · exact (first.reached.le (by omega)).1
  have ends : ∀ fuel > buf.length + 2, inet6OptFind fuel buf offset type =
      some (.ok ⟨(p + lenAt buf p : Nat), some (some ((p + 2 : Nat) : Int)),
        some (lenAt buf p)⟩) := by
    intro fuel more
    rw [inet6OptFind_last offsetInt first.accepted (by omega) first.reached first.last (by omega)
      more, int32_small (by omega) (by omega)]
  exact
    { ends := ⟨_, ends⟩
      found := fun q other => only q other ▸ ends
      continues := fun q other => by
        rw [only q other]
        exact continues_of_small first fits }

theorem finds_of_stops (length : buf.length < 2 ^ 32) (offsetInt : offset < 2 ^ 31)
    (stops : Stops buf offset type) : Finds buf offset type := by
  by_cases rejected : Rejected buf offset
  · exact finds_nothing (fun p first => first.accepted rejected)
      fun fuel _ => inet6OptFind_rejected length offsetInt rejected fuel
  obtain ⟨small, stop⟩ := stops.resolve_left rejected
  by_cases behind : buf.length < 2 + offset
  · have last : leaves (searchTurn buf type ((2 + offset : Nat) : Int)) = some (.ok missing) := by
      rw [turn_behind behind]
      rfl
    have none : ∀ p, ¬First buf offset type p := by
      intro p first
      have same := first.reached.behind behind
      have inside := first.inside
      omega
    have near : offset < buf.length := by
      simp only [Rejected, not_or, not_le] at rejected
      exact rejected.2.1
    exact finds_nothing none fun fuel more =>
      inet6OptFind_last offsetInt rejected small (.here _) last (by omega) more
  obtain ⟨p, reached, inside, notPad, way⟩ := stop.resolve_left behind
  by_cases short : buf.length < p + 2 + lenAt buf p
  · have last : leaves (searchTurn buf type p) = some (.ok failed) := by
      rw [turn_short inside notPad short]
      rfl
    have none : ∀ q, ¬First buf offset type q := by
      intro q first
      have same := reached.unique last first.reached first.last
      have fits := first.inside
      rw [← same] at fits
      omega
    exact finds_nothing none fun fuel more =>
      inet6OptFind_last offsetInt rejected small reached last (by omega) more
  · obtain ⟨isType, fits⟩ := way.resolve_left short
    exact finds_first offsetInt ⟨rejected, reached, notPad, isType, by omega⟩ fits

theorem stops_of_finds (offsetInt : offset < 2 ^ 31)
    (finds : Finds buf offset type) : Stops buf offset type := by
  by_cases rejected : Rejected buf offset
  · exact .inl rejected
  obtain ⟨outcome, ends⟩ := finds.ends
  have ended := ends (buf.length + 2 + 1) (by omega)
  by_cases large : 2 ^ 31 ≤ 2 + offset
  · have start : (2 : Int) + offset = (2 + offset : Nat) := by omega
    rw [inet6OptFind_accepted offsetInt rejected, start, loop_wrapped large (by omega)] at ended
    cases ended
  refine .inr ⟨by omega, ?_⟩
  by_cases behind : buf.length < 2 + offset
  · exact .inl behind
  obtain ⟨p, result, reached, last⟩ := @reaches_last buf type (2 + offset) (by omega)
  have below := (reached.le (by omega)).2
  rw [inet6OptFind_last offsetInt rejected (by omega) reached last (by omega) (by omega)] at ended
  cases ended
  refine .inr ⟨p, reached, ?_⟩
  have done : searchTurn buf type p = .ok (.done outcome) := leaves_ok last
  obtain ⟨more, notPad, way⟩ := turn_done below done
  refine ⟨more, notPad, ?_⟩
  by_cases short : buf.length < p + 2 + lenAt buf p
  · exact .inl short
  have isType := way.resolve_left short
  have first : First buf offset type p := ⟨rejected, reached, notPad, isType, by omega⟩
  refine .inr ⟨isType, ?_⟩
  have exactly := finds.found p first (buf.length + 2 + 1) (by omega)
  rw [inet6OptFind_last offsetInt rejected (by omega) reached first.last (by omega)
    (by omega)] at exactly
  have result : int32 (p + lenAt buf p : Nat) = (p + lenAt buf p : Nat) := by
    simpa using exactly
  have limit := int32_lt (p + lenAt buf p : Nat)
  by_contra tooLarge
  exact not_continues first (by omega) (by omega) (finds.continues p first type 1)

/-- The search keeps to its buffer and finds what it is for exactly where it stops in time. -/
theorem inet6OptFind_finds_iff (length : buf.length < 2 ^ 32) (offsetInt : offset < 2 ^ 31) :
    Finds buf offset type ↔ Stops buf offset type :=
  ⟨stops_of_finds offsetInt, finds_of_stops length offsetInt⟩

end Function

/-- Padding of four bytes, then an option of type `0xc9` with two bytes of data. -/
def homeAddress : List UInt8 := [59, 0, 1, 0, 0xc9, 2, 7, 7]

theorem finds_homeAddress : Finds homeAddress 0 0xc9 :=
  (@inet6OptFind_finds_iff homeAddress 0 0xc9 (by decide) (by decide)).mpr
    (.inr ⟨by decide, .inr ⟨4, .option (by decide) (by decide) (by decide) (.here 4), by decide,
      by decide, .inr (by decide)⟩⟩)

/-- A header that padding fills: the byte behind it is read. -/
theorem padded_overread :
    inet6OptFind 3 [59, 0, 1, 4, 0, 0, 0, 0] 0 0xc9 = some (.error (.outside 8)) ∧
      ¬Finds [59, 0, 1, 4, 0, 0, 0, 0] 0 0xc9 := by
  have overread : ∀ fuel, inet6OptFind (fuel + 2) [59, 0, 1, 4, 0, 0, 0, 0] 0 0xc9 =
      some (.error (.outside 8)) := fun fuel => rfl
  refine ⟨overread 1, fun finds => ?_⟩
  obtain ⟨outcome, ends⟩ := finds.ends
  have ended := ends 11 (by decide)
  rw [show ((0 : Nat) : Int) = 0 from rfl, overread 9] at ended
  cases ended

end OaiPmip.OptFind
