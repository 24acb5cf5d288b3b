import Mathlib.Data.List.DropRight
import OaiPmip.Lib.Wire

/-!
# Lines of the mapping file: pmip_hnp_cache.c

`pmip_mn_to_hnp_cache_init` reads its file by `fgets` and takes the white space off both
ends of each line with `trim`.  The memory that `trim` may use is the string and its
terminator, and any other access is a fault.
-/

set_option autoImplicit false

namespace OaiPmip.HnpTrim

open OaiPmip.Wire (int32 int32_small)

def isspace (c : UInt8) : Bool := c = 0x20 ∨ 0x09 ≤ c ∧ c ≤ 0x0d

/-- At most `n` bytes, up to a newline. -/
def fgetsLine : Nat → List UInt8 → List UInt8 × List UInt8
  | 0, rest => ([], rest)
  | _, [] => ([], [])
  | n + 1, c :: rest =>
      if c = 0x0a then ([c], rest)
      else (c :: (fgetsLine n rest).1, (fgetsLine n rest).2)

/-- The line that is read and what is left of the file; `none` at its end. -/
def fgets (size : Nat) (stream : List UInt8) : Option (List UInt8 × List UInt8) :=
  if stream.isEmpty then none else some (fgetsLine (size - 1) stream)

def cString (mem : List UInt8) : List UInt8 := mem.takeWhile (· ≠ 0)

/-- `char line [256]`. -/
def lineSize : Nat := 256

/-- An access outside the memory, by its distance from `s`. -/
inductive Fault where
  | outside (i : Int)
  deriving DecidableEq

def read (mem : List UInt8) (i : Nat) : Except Fault UInt8 :=
  match mem[i]? with
  | some c => .ok c
  | none => .error (.outside i)

/-- `while(isspace(p[l - 1])) p[--l] = 0`. -/
def trimEnd (mem : List UInt8) : Nat → Except Fault (List UInt8 × Nat)
  | 0 => .error (.outside (-1))
  | l + 1 => do
      let c ← read mem l
      if isspace c then trimEnd (mem.set l 0) l else return (mem, l + 1)

/-- `while(* p && isspace(* p)) ++p, --l`, from the rest of the memory at `p` on. -/
def trimStart (p : Nat) (l : Int) : List UInt8 → Except Fault (Nat × Int)
  | [] => .error (.outside p)
  | c :: rest => if c ≠ 0 ∧ isspace c then trimStart (p + 1) (l - 1) rest else .ok (p, l)

def memmove (mem : List UInt8) (p : Nat) (n : Int) : Except Fault (List UInt8) :=
  if 0 ≤ n ∧ p + n ≤ mem.length then
    .ok ((mem.drop p).take n.toNat ++ mem.drop n.toNat)
  else .error (.outside (p + n - 1))

def trim (mem : List UInt8) : Except Fault (List UInt8) := do
  let l := int32 (cString mem).length
  if l < 0 then .error (.outside (l - 1))
  else
    let (mem, l) ← trimEnd mem l.toNat
    let (p, l) ← trimStart 0 l mem
    memmove mem p (l + 1)

def strip (str : List UInt8) : List UInt8 := (str.rdropWhile isspace).dropWhile isspace

/-- The string and its terminator are all that is used, and what is left is the string stripped. -/
def Trims (str : List UInt8) : Prop :=
  ∃ mem, trim (str ++ [0]) = .ok mem ∧ strip str ++ [0] <+: mem

/-! ## The loops -/

theorem trimEnd_concat (front : List UInt8) (c : UInt8) (tail : List UInt8) :
    trimEnd (front ++ [c] ++ tail) (front ++ [c]).length =
      if isspace c then trimEnd (front ++ 0 :: tail) front.length
      else .ok (front ++ [c] ++ tail, (front ++ [c]).length) := by
  have last : read (front ++ [c] ++ tail) front.length = .ok c := by
    rw [read, List.append_assoc, List.getElem?_append_right (le_refl _), Nat.sub_self]
    rfl
  have cleared : (front ++ [c] ++ tail).set front.length 0 = front ++ 0 :: tail := by
    rw [List.append_assoc, List.set_append_right _ _ (le_refl _), Nat.sub_self]
    rfl
  rw [List.length_append, List.length_singleton, trimEnd, last]
  simp only [bind, Except.bind, pure, Except.pure, cleared]

theorem trimEnd_blank {front : List UInt8} (blank : ∀ c ∈ front, isspace c = true)
    (tail : List UInt8) : trimEnd (front ++ tail) front.length = .error (.outside (-1)) := by
  induction front using List.reverseRecOn generalizing tail with
  | nil => rfl
  | append_singleton front c ih =>
      rw [trimEnd_concat, if_pos (blank c (by simp))]
      exact ih (fun x member => blank x (List.mem_append_left _ member)) (0 :: tail)

theorem trimEnd_spec {front : List UInt8} (some : front.rdropWhile isspace ≠ [])
    (tail : List UInt8) : ∃ k, trimEnd (front ++ tail) front.length =
      .ok (front.rdropWhile isspace ++ (List.replicate k 0 ++ tail),
        (front.rdropWhile isspace).length) := by
  induction front using List.reverseRecOn generalizing tail with
  | nil => exact absurd (List.rdropWhile_nil isspace) some
  | append_singleton front c ih =>
      rw [trimEnd_concat]
      by_cases space : isspace c = true
      · rw [List.rdropWhile_concat_pos _ _ _ space] at some ⊢
        obtain ⟨k, trimmed⟩ := ih some (0 :: tail)
        refine ⟨k + 1, ?_⟩
        have zeros : List.replicate (k + 1) 0 ++ tail = List.replicate k 0 ++ 0 :: tail := by
          rw [List.replicate_succ', List.append_assoc, List.singleton_append]
        rw [if_pos space, trimmed, zeros]
      · rw [List.rdropWhile_concat_neg _ _ _ space, if_neg space]
        exact ⟨0, by rw [List.replicate_zero, List.nil_append]⟩

theorem trimStart_spec (body rest : List UInt8) (p : Nat) (l : Int) :
    trimStart p l (body ++ 0 :: rest) =
      .ok (p + (body.takeWhile isspace).length, l - (body.takeWhile isspace).length) := by
  induction body generalizing p l with
  | nil => simp [trimStart]
  | cons c body ih =>
      rw [List.cons_append, trimStart]
      by_cases space : isspace c = true
      · have notZero : c ≠ 0 := by
          intro zero
          rw [zero] at space
          cases space
        rw [if_pos ⟨notZero, space⟩, ih, List.takeWhile_cons_of_pos space, List.length_cons]
        congr 2
        · omega
        · omega
      · rw [if_neg (fun both => space both.2), List.takeWhile_cons_of_neg space]
        simp

theorem memmove_spec (front moved rest : List UInt8) :
    ∃ left, memmove (front ++ (moved ++ rest)) front.length moved.length = .ok (moved ++ left) := by
  refine ⟨(front ++ (moved ++ rest)).drop moved.length, ?_⟩
  rw [memmove, if_pos ⟨by omega, by simp only [List.length_append]; omega⟩, Int.toNat_natCast,
    List.drop_left, List.take_left]

theorem cString_terminated {str : List UInt8} (noZero : 0 ∉ str) : cString (str ++ [0]) = str := by
  rw [cString, List.takeWhile_append_of_pos]
  · simp
  · intro c member
    simp only [ne_eq, decide_eq_true_eq]
    intro zero
    exact noZero (zero ▸ member)

section Trim
variable {str : List UInt8} (noZero : 0 ∉ str) (short : str.length < lineSize)
include noZero short

theorem trim_start : trim (str ++ [0]) = (do
    let (mem, l) ← trimEnd (str ++ [0]) str.length
    let (p, l) ← trimStart 0 l mem
    memmove mem p (l + 1)) := by
  have small : int32 str.length = str.length := by
    rw [lineSize] at short
    exact int32_small (by omega) (by omega)
  rw [trim, cString_terminated noZero, small, Int.toNat_natCast]
  exact if_neg (by omega)

theorem trim_blank (blank : ∀ c ∈ str, isspace c = true) :
    trim (str ++ [0]) = .error (.outside (-1)) := by
  rw [trim_start noZero short, trimEnd_blank blank]
  rfl

theorem trims_of_some {c : UInt8} (member : c ∈ str) (notSpace : isspace c = false) :
    Trims str := by
  have some : str.rdropWhile isspace ≠ [] := by
    intro none
    rw [List.rdropWhile_eq_nil_iff.mp none c member] at notSpace
    cases notSpace
  obtain ⟨k, trimmed⟩ := trimEnd_spec some [0]
  have zeros : List.replicate k (0 : UInt8) ++ [0] = 0 :: List.replicate k 0 := by
    rw [← List.replicate_succ', List.replicate_succ]
  have halves := @List.takeWhile_append_dropWhile _ isspace (str.rdropWhile isspace)
  have whole : str.rdropWhile isspace ++ 0 :: List.replicate k 0 =
      (str.rdropWhile isspace).takeWhile isspace ++
        (strip str ++ [0] ++ List.replicate k 0) := by
    rw [strip, List.append_assoc, ← List.append_assoc, halves]
    rfl
  have count : ((str.rdropWhile isspace).length : Int) -
      ((str.rdropWhile isspace).takeWhile isspace).length + 1 = (strip str ++ [0]).length := by
    have lengths := congrArg List.length halves
    rw [List.length_append] at lengths
    rw [List.length_append, List.length_singleton, strip]
    omega
  obtain ⟨left, moved⟩ := memmove_spec ((str.rdropWhile isspace).takeWhile isspace)
    (strip str ++ [0]) (List.replicate k 0)
  refine ⟨strip str ++ [0] ++ left, ?_, List.prefix_append _ _⟩
  rw [trim_start noZero short, trimmed, zeros]
  simp only [bind, Except.bind]
  rw [trimStart_spec]
  dsimp only
  rw [Nat.zero_add, count, whole, moved]

theorem trims_iff_some : Trims str ↔ ∃ c ∈ str, isspace c = false := by
  constructor
  · intro trims
    obtain ⟨mem, trimmed, _⟩ := trims
    by_contra none
    have blank : ∀ c ∈ str, isspace c = true := by
      intro c member
      cases space : isspace c with
      | true => rfl
      | false => exact absurd ⟨c, member, space⟩ none
    rw [trim_blank noZero short blank] at trimmed
    cases trimmed
  · intro exist
    obtain ⟨c, member, notSpace⟩ := exist
    exact trims_of_some noZero short member notSpace

end Trim

/-! ## The lines of a file -/

theorem fgetsLine_length (n : Nat) (stream : List UInt8) : (fgetsLine n stream).1.length ≤ n := by
  induction n generalizing stream with
  | zero => exact le_refl 0
  | succ n ih =>
      cases stream with
      | nil => exact Nat.zero_le _
      | cons c rest =>
          rw [fgetsLine]
          split
          · exact Nat.succ_le_succ (Nat.zero_le n)
          · exact Nat.succ_le_succ (ih rest)

theorem fgets_short {stream line rest : List UInt8}
    (delivered : fgets lineSize stream = some (line, rest)) : line.length < lineSize := by
  rw [fgets] at delivered
  split at delivered
  · cases delivered
  · have lines : (fgetsLine (lineSize - 1) stream).1 = line :=
      congrArg Prod.fst (Option.some.inj delivered)
    have length := fgetsLine_length (lineSize - 1) stream
    rw [lines] at length
    rw [lineSize] at length ⊢
    omega

theorem cString_noZero (line : List UInt8) : 0 ∉ cString line := by
  intro member
  have taken := List.mem_takeWhile_imp member
  cases taken

/-- A line is trimmed within its memory exactly where it is not blank. -/
theorem trims_iff {stream line rest : List UInt8}
    (delivered : fgets lineSize stream = some (line, rest)) :
    Trims (cString line) ↔ ∃ c ∈ cString line, isspace c = false := by
  have whole := fgets_short delivered
  have part := (List.takeWhile_prefix (fun c : UInt8 => decide (c ≠ 0)) (l := line)).length_le
  exact trims_iff_some (cString_noZero line) (part.trans_lt whole)

theorem trims_word : Trims (cString [0x20, 0x61, 0x0a]) :=
  (@trims_iff [0x20, 0x61, 0x0a] [0x20, 0x61, 0x0a] [] (by decide)).mpr
    ⟨0x61, by decide, by decide⟩

/-- An empty line of the file: the byte in front of the buffer is read. -/
theorem blank_overread :
    fgets lineSize [0x0a] = some ([0x0a], []) ∧ trim ([0x0a] ++ [0]) = .error (.outside (-1)) ∧
      ¬Trims (cString [0x0a]) := by
  have fault : trim ([0x0a] ++ [0]) = .error (.outside (-1)) :=
    trim_blank (by decide) (by decide) fun c member => by rw [List.mem_singleton.mp member]; rfl
  refine ⟨by decide, fault, fun trims => ?_⟩
  obtain ⟨mem, trimmed, _⟩ := trims
  rw [show cString [0x0a] = [0x0a] by decide, fault] at trimmed
  cases trimmed

end OaiPmip.HnpTrim
