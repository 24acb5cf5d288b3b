import OaiPmip.Lib.Records
import OaiPmip.Msgs

/-!
# The option parser and the options of a message, mh.c

`mh_opt_parse` against the records that the bytes of a message make: which
option it refuses, and what it has recorded when it refuses none.
-/

set_option autoImplicit false

namespace OaiPmip.Msgs

open OaiPmip.Records

def optionFraming (mh : Buffer) : Framing where
  size := fun i => if mh i = 0 then 1 else (mh (i + 1)).toNat + 2
  pos := by
    intro i
    split
    · exact Nat.zero_lt_one
    · exact Nat.succ_pos _

def typeAt (mh : Buffer) (i : Nat) : Nat := (mh i).toNat

/-- The types that `mh_opt_parse` keeps offsets of. -/
def Recorded (type : Nat) : Prop := 2 ≤ type ∧ type ≤ ip6MhoptMax

instance (type : Nat) : Decidable (Recorded type) :=
  inferInstanceAs (Decidable (2 ≤ type ∧ type ≤ ip6MhoptMax))

/-- The option at `i` repeats one of `before`, which its type may not. -/
def Repeats (dupBeyond : Nat → Bool) (mh : Buffer) (before : List Nat) (i : Nat) : Prop :=
  Recorded (typeAt mh i) ∧ (∃ j ∈ before, typeAt mh j = typeAt mh i) ∧
    mhOptsDupOk dupBeyond (typeAt mh i) = false

instance (dupBeyond : Nat → Bool) (mh : Buffer) (before : List Nat) (i : Nat) :
    Decidable (Repeats dupBeyond mh before i) :=
  inferInstanceAs (Decidable (_ ∧ _ ∧ _))

/-- The option at `i` fails a check, after the options of `before`. -/
def Refused (dupBeyond : Nat → Bool) (mh : Buffer) (len : Nat) (before : List Nat) (i : Nat) :
    Prop :=
  (∃ j ∈ before, typeAt mh j = 5) ∨
    (typeAt mh i ≠ 0 ∧ (len < i + 2 ∨
      mhOptLenChk (typeAt mh i) ((optionFraming mh).size i) = true ∨
      Repeats dupBeyond mh before i))

instance (dupBeyond : Nat → Bool) (mh : Buffer) (len : Nat) (before : List Nat) (i : Nat) :
    Decidable (Refused dupBeyond mh len before i) :=
  inferInstanceAs (Decidable (_ ∨ (_ ∧ (_ ∨ _ ∨ _))))

def walked (dupBeyond : Nat → Bool) (mh : Buffer) (len : Nat) : List Nat → List Nat → List Nat
  | _, [] => []
  | before, i :: rest =>
      if Refused dupBeyond mh len before i then []
      else i :: walked dupBeyond mh len (before ++ [i]) rest

def recorded (mh : Buffer) (mhOpts : MhOptions) (i : Nat) : MhOptions :=
  if Recorded (typeAt mh i) then
    if mhOpts.opts (typeAt mh i) = 0 then
      { mhOpts with opts := Function.update mhOpts.opts (typeAt mh i) i }
    else { mhOpts with optsEnd := Function.update mhOpts.optsEnd (typeAt mh i) i }
  else mhOpts

/-! ## The loop of the parser -/

/-- The state of the loop after the options of `before`. -/
structure Tracks (mh : Buffer) (before : List Nat) (bauth : Bool) (mhOpts : MhOptions) : Prop where
  bauth : bauth = true ↔ ∃ j ∈ before, typeAt mh j = 5
  seen : ∀ type, Recorded type → (mhOpts.opts type = 0 ↔ ¬ ∃ j ∈ before, typeAt mh j = type)

theorem tracks_zero (mh : Buffer) : Tracks mh [] false MhOptions.zero where
  bauth := by simp
  seen := by simp [MhOptions.zero]

section Loop
variable {dupBeyond : Nat → Bool} {mh : Buffer} {len i : Nat} {before : List Nat} {bauth : Bool}
  {mhOpts : MhOptions}

theorem Tracks.snoc (tracks : Tracks mh before bauth mhOpts) (positive : 0 < i)
    (accepted : ¬ ∃ j ∈ before, typeAt mh j = 5) :
    Tracks mh (before ++ [i]) (decide (typeAt mh i = 5)) (recorded mh mhOpts i) where
  bauth := by
    simp only [decide_eq_true_eq, List.mem_append, List.mem_singleton]
    constructor
    · intro is
      exact ⟨i, Or.inr rfl, is⟩
    · intro given
      obtain ⟨j, member | rfl, is⟩ := given
      · exact absurd ⟨j, member, is⟩ accepted
      · exact is
  seen := by
    intro type isRecorded
    have was := tracks.seen type isRecorded
    have now : (∃ j ∈ before ++ [i], typeAt mh j = type) ↔
        (∃ j ∈ before, typeAt mh j = type) ∨ typeAt mh i = type := by
      simp [List.mem_append, or_and_right, exists_or]
    rw [now, not_or, ← was]
    simp only [recorded]
    by_cases same : typeAt mh i = type
    · subst same
      rw [if_pos isRecorded]
      split
      · simp [positive.ne']
      · rename_i found
        simp [found]
    · split
      · split
        · simp [Function.update_of_ne (Ne.symm same), same]
        · simp [same]
      · simp [same]

theorem size_pad1 (zero : typeAt mh i = (0 : UInt8).toNat) : (optionFraming mh).size i = 1 :=
  if_pos (UInt8.toNat_inj.mp zero)

theorem size_option (some : typeAt mh i ≠ 0) :
    (optionFraming mh).size i = (mh (i + 1)).toNat + 2 :=
  if_neg fun zero => some (by rw [typeAt, zero]; rfl)

theorem recordOpt_eq (tracks : Tracks mh before bauth mhOpts) (large : 2 ≤ typeAt mh i) :
    recordOpt dupBeyond mhOpts (typeAt mh i) i =
      if Repeats dupBeyond mh before i then none else some (recorded mh mhOpts i) := by
  simp only [recordOpt, recorded, Repeats, Recorded]
  by_cases known : typeAt mh i ≤ ip6MhoptMax
  · have seen := tracks.seen _ ⟨large, known⟩
    by_cases fresh : mhOpts.opts (typeAt mh i) = 0
    · simp [known, large, fresh, seen.mp fresh]
    · have again : ∃ j ∈ before, typeAt mh j = typeAt mh i :=
        not_not.mp fun none => fresh (seen.mpr none)
      by_cases allowed : mhOptsDupOk dupBeyond (typeAt mh i) = true
      · simp [known, large, fresh, allowed]
      · simp [known, large, fresh, again, allowed]
  · simp [known]

theorem optLoop_succ (fuel left : Nat) :
    optLoop dupBeyond mh (fuel + 1) (left + 1) i bauth mhOpts =
      if bauth then none
      else if typeAt mh i = 0 then optLoop dupBeyond mh fuel left (i + 1) bauth mhOpts
      else if left + 1 < 2 ∨ mhOptLenChk (typeAt mh i) ((mh (i + 1)).toNat + 2) = true then none
      else if typeAt mh i = 1 then
        optLoop dupBeyond mh fuel (left + 1 - ((mh (i + 1)).toNat + 2))
          (i + ((mh (i + 1)).toNat + 2)) bauth mhOpts
      else
        match recordOpt dupBeyond mhOpts (typeAt mh i) i with
        | none => none
        | some mhOpts =>
            optLoop dupBeyond mh fuel (left + 1 - ((mh (i + 1)).toNat + 2))
              (i + ((mh (i + 1)).toNat + 2)) (typeAt mh i = 5) mhOpts := rfl

theorem recorded_pad {mh : Buffer} {i : Nat} (pad : typeAt mh i = 0 ∨ typeAt mh i = 1)
    (mhOpts : MhOptions) : recorded mh mhOpts i = mhOpts := by
  rcases pad with zero | padN
  · simp [recorded, Recorded, zero]
  · simp [recorded, Recorded, padN]

theorem optLoop_turn (fuel : Nat) (inside : i < len) (tracks : Tracks mh before bauth mhOpts) :
    optLoop dupBeyond mh (fuel + 1) (len - i) i bauth mhOpts =
      if Refused dupBeyond mh len before i then none
      else optLoop dupBeyond mh fuel (len - (i + (optionFraming mh).size i))
        (i + (optionFraming mh).size i) (decide (typeAt mh i = 5)) (recorded mh mhOpts i) := by
  obtain ⟨left, isLeft⟩ : ∃ left, len - i = left + 1 := ⟨len - i - 1, by omega⟩
  have next : ∀ size, len - (i + size) = left + 1 - size := by omega
  have short : left + 1 < 2 ↔ len < i + 2 := by omega
  rw [isLeft, next]
  cases bauth with
  | true =>
      have refused : Refused dupBeyond mh len before i := Or.inl (tracks.bauth.mp rfl)
      rw [if_pos refused, optLoop_succ, if_pos rfl]
  | false =>
      have unsigned : ¬ ∃ j ∈ before, typeAt mh j = 5 := fun found =>
        Bool.false_ne_true (tracks.bauth.mpr found)
      rw [optLoop_succ, if_neg Bool.false_ne_true]
      simp only [Refused, unsigned, false_or]
      by_cases zero : typeAt mh i = 0
      · simp [zero, size_pad1 zero, recorded_pad (Or.inl zero)]
      · rw [if_neg zero, size_option zero]
        simp only [ne_eq, zero, not_false_eq_true, true_and]
        by_cases malformed : len < i + 2 ∨ mhOptLenChk (typeAt mh i) ((mh (i + 1)).toNat + 2) = true
        · rw [if_pos ((or_congr_left short).mpr malformed), if_pos (malformed.imp_right Or.inl)]
        · rw [if_neg fun either => malformed ((or_congr_left short).mp either)]
          simp only [not_or] at malformed
          simp only [malformed, false_or, Bool.false_eq_true]
          by_cases padN : typeAt mh i = 1
          · simp [padN, Repeats, Recorded, recorded_pad (Or.inr padN)]
          · rw [if_neg padN, recordOpt_eq tracks (by omega)]
            by_cases repeats : Repeats dupBeyond mh before i
            · rw [if_pos repeats, if_pos repeats]
            · rw [if_neg repeats, if_neg repeats]

theorem optLoop_eq {fuel : Nat} (enough : len - i ≤ fuel) (positive : 0 < i)
    (tracks : Tracks mh before bauth mhOpts) :
    optLoop dupBeyond mh fuel (len - i) i bauth mhOpts =
      if walked dupBeyond mh len before ((optionFraming mh).offsets i len) =
          (optionFraming mh).offsets i len then
        some (((optionFraming mh).offsets i len).foldl (recorded mh) mhOpts)
      else none := by
  induction i using (optionFraming mh).offsets_induction len
      generalizing fuel before bauth mhOpts with
  | ends i outside =>
      rw [Nat.sub_eq_zero_of_le outside, Framing.offsets_nil _ outside, walked,
        if_pos rfl]
      cases fuel with
      | zero => rfl
      | succ fuel => rfl
  | record i inside ih =>
      have advances := (optionFraming mh).pos i
      obtain ⟨fuel, rfl⟩ : ∃ less, fuel = less + 1 := ⟨fuel - 1, by omega⟩
      rw [optLoop_turn fuel inside tracks, Framing.offsets_cons _ inside, walked]
      by_cases refused : Refused dupBeyond mh len before i
      · rw [if_pos refused, if_pos refused, if_neg (List.cons_ne_nil _ _).symm]
      · have unsigned : ¬ ∃ j ∈ before, typeAt mh j = 5 := fun found => refused (Or.inl found)
        rw [if_neg refused, if_neg refused, List.foldl_cons,
          ih (by omega) (by omega) (tracks.snoc positive unsigned)]
        simp only [List.cons.injEq, true_and]

end Loop

/-! ## What is recorded -/

def ofType (mh : Buffer) (type : Nat) (offsets : List Nat) : List Nat :=
  offsets.filter fun i => typeAt mh i = type

section Recorded
variable {mh : Buffer} {type : Nat} {offsets : List Nat}

theorem recorded_other (mhOpts : MhOptions) {i : Nat} (other : typeAt mh i ≠ type) :
    (recorded mh mhOpts i).opts type = mhOpts.opts type ∧
      (recorded mh mhOpts i).optsEnd type = mhOpts.optsEnd type := by
  simp only [recorded]
  split
  · split
    · exact ⟨Function.update_of_ne other.symm _ _, rfl⟩
    · exact ⟨rfl, Function.update_of_ne other.symm _ _⟩
  · exact ⟨rfl, rfl⟩

theorem foldl_recorded_seen (mhOpts : MhOptions) (isRecorded : Recorded type)
    (seen : mhOpts.opts type ≠ 0) :
    (offsets.foldl (recorded mh) mhOpts).opts type = mhOpts.opts type ∧
      (offsets.foldl (recorded mh) mhOpts).optsEnd type =
        (ofType mh type offsets).getLast?.getD (mhOpts.optsEnd type) := by
  induction offsets generalizing mhOpts with
  | nil => exact ⟨rfl, rfl⟩
  | cons i rest ih =>
      rw [List.foldl_cons]
      by_cases same : typeAt mh i = type
      · subst same
        have next : recorded mh mhOpts i =
            { mhOpts with optsEnd := Function.update mhOpts.optsEnd (typeAt mh i) i } := by
          rw [recorded, if_pos isRecorded, if_neg seen]
        have later := ih (recorded mh mhOpts i) (by rw [next]; exact seen)
        rw [later.1, later.2, next]
        refine ⟨rfl, ?_⟩
        simp [ofType, List.getLast?_cons]
      · obtain ⟨opts, optsEnd⟩ := recorded_other mhOpts same
        have later := ih (recorded mh mhOpts i) (by rw [opts]; exact seen)
        rw [later.1, later.2, opts, optsEnd]
        simp [ofType, same]

theorem foldl_recorded (mhOpts : MhOptions) (isRecorded : Recorded type)
    (fresh : mhOpts.opts type = 0) (positive : ∀ i ∈ offsets, 0 < i) :
    (offsets.foldl (recorded mh) mhOpts).opts type = (ofType mh type offsets).head?.getD 0 ∧
      (offsets.foldl (recorded mh) mhOpts).optsEnd type =
        (ofType mh type offsets).tail.getLast?.getD (mhOpts.optsEnd type) := by
  induction offsets generalizing mhOpts with
  | nil => exact ⟨fresh, rfl⟩
  | cons i rest ih =>
      rw [List.foldl_cons]
      by_cases same : typeAt mh i = type
      · subst same
        have next : recorded mh mhOpts i =
            { mhOpts with opts := Function.update mhOpts.opts (typeAt mh i) i } := by
          rw [recorded, if_pos isRecorded, if_pos fresh]
        have here : (recorded mh mhOpts i).opts (typeAt mh i) = i := by
          rw [next]
          exact Function.update_self _ _ _
        have notZero := (positive i List.mem_cons_self).ne'
        have later := @foldl_recorded_seen mh _ rest (recorded mh mhOpts i) isRecorded
          (by rw [here]; exact notZero)
        rw [later.1, later.2, here, next]
        simp [ofType]
      · obtain ⟨opts, optsEnd⟩ := recorded_other mhOpts same
        have later := ih (recorded mh mhOpts i) (by rw [opts]; exact fresh) fun j member =>
          positive j (List.mem_cons_of_mem _ member)
        rw [later.1, later.2, optsEnd]
        simp [ofType, same]

theorem foldl_recorded_none (mhOpts : MhOptions) (notRecorded : ¬ Recorded type) :
    (offsets.foldl (recorded mh) mhOpts).opts type = mhOpts.opts type ∧
      (offsets.foldl (recorded mh) mhOpts).optsEnd type = mhOpts.optsEnd type := by
  induction offsets generalizing mhOpts with
  | nil => exact ⟨rfl, rfl⟩
  | cons i rest ih =>
      rw [List.foldl_cons]
      have later := ih (recorded mh mhOpts i)
      by_cases same : typeAt mh i = type
      · have unchanged : recorded mh mhOpts i = mhOpts := by
          rw [recorded, same, if_neg notRecorded]
        rw [unchanged]
        exact ih mhOpts
      · obtain ⟨opts, optsEnd⟩ := recorded_other mhOpts same
        rw [later.1, later.2, opts, optsEnd]
        exact ⟨rfl, rfl⟩

end Recorded

/-- What `mh_opt_parse` returns: the offsets of the first and the last option of
each type, when it refuses none. -/
def recordedOptions (mh : Buffer) (len offset : Nat) : MhOptions :=
  ((optionFraming mh).offsets offset len).foldl (recorded mh) MhOptions.zero

theorem mhOptParse_eq (dupBeyond : Nat → Bool) (mh : Buffer) {len offset : Nat}
    (positive : 0 < offset) :
    mhOptParse dupBeyond mh len offset =
      if walked dupBeyond mh len [] ((optionFraming mh).offsets offset len) =
          (optionFraming mh).offsets offset len then
        some (recordedOptions mh len offset)
      else none :=
  optLoop_eq (Nat.le_refl _) positive (tracks_zero mh)

section Options
variable {mh : Buffer} {len offset : Nat}

theorem recordedOptions_first (positive : 0 < offset) {type : Nat} (isRecorded : Recorded type) :
    (recordedOptions mh len offset).opts type =
      (ofType mh type ((optionFraming mh).offsets offset len)).head?.getD 0 := by
  refine (foldl_recorded MhOptions.zero isRecorded rfl ?_).1
  intro i member
  have bounds := (optionFraming mh).offsets_range i member
  omega

theorem recordedOptions_last (positive : 0 < offset) {type : Nat} (isRecorded : Recorded type) :
    (recordedOptions mh len offset).optsEnd type =
      (ofType mh type ((optionFraming mh).offsets offset len)).tail.getLast?.getD 0 := by
  refine (foldl_recorded MhOptions.zero isRecorded rfl ?_).2
  intro i member
  have bounds := (optionFraming mh).offsets_range i member
  omega

theorem mhOpt_recorded (positive : 0 < offset) {type : Nat} (isRecorded : Recorded type) :
    mhOpt (recordedOptions mh len offset) type =
      (ofType mh type ((optionFraming mh).offsets offset len)).head? := by
  rw [mhOpt, recordedOptions_first positive isRecorded]
  cases are : ofType mh type ((optionFraming mh).offsets offset len) with
  | nil => rfl
  | cons i rest =>
      have member : i ∈ ofType mh type ((optionFraming mh).offsets offset len) := by
        rw [are]
        exact List.mem_cons_self
      have range := (optionFraming mh).offsets_range i (List.mem_of_mem_filter member)
      exact if_neg (by rw [List.head?_cons, Option.getD_some]; omega)

end Options

end OaiPmip.Msgs
