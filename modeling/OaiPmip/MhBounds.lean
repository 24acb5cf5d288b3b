import OaiPmip.Lib.Wire
import OaiPmip.MhOptions

/-!
# The bytes and the table entries that mh_opt_parse reads

The parser of mh.c on a message of so many bytes, where a read of a byte that the
message does not have, or of an entry that `mh_opts_dup_ok` does not have, is an
error.  The table ends with the Mobile Network Prefix; the types go on behind it.
-/

set_option autoImplicit false

namespace OaiPmip.Msgs

open OaiPmip.Records OaiPmip.Wire

inductive Fault where
  | message
  | table
  | unfinished
  deriving DecidableEq

def readByte (msg : List UInt8) (i : Nat) : Except Fault UInt8 := readByteOr .message msg i

/-- `mh_opts_dup_ok`. -/
def dupOkTable : List Bool := [true, true, false, false, false, false, true]

def readDupOk (type : Nat) : Except Fault Bool :=
  match dupOkTable[type]? with
  | some allowed => .ok allowed
  | none => .error .table

def recordOptRead (mhOpts : MhOptions) (type i : Nat) : Except Fault (Option MhOptions) :=
  if type ≤ ip6MhoptMax then
    if mhOpts.opts type = 0 then
      .ok (some { mhOpts with opts := Function.update mhOpts.opts type i })
    else
      match readDupOk type with
      | .error fault => .error fault
      | .ok true => .ok (some { mhOpts with optsEnd := Function.update mhOpts.optsEnd type i })
      | .ok false => .ok none
  else .ok (some mhOpts)

/-- The loop of `mh_opt_parse`.  The length of an option is read when there are
two bytes left. -/
def optLoopRead (msg : List UInt8) :
    Nat → Nat → Nat → Bool → MhOptions → Except Fault (Option MhOptions)
  | _, 0, _, _, mhOpts => .ok (some mhOpts)
  | 0, _ + 1, _, _, _ => .error .unfinished
  | fuel + 1, left, i, bauth, mhOpts =>
      if bauth then .ok none
      else
        match readByte msg i with
        | .error fault => .error fault
        | .ok type =>
            if type.toNat = 0 then optLoopRead msg fuel (left - 1) (i + 1) bauth mhOpts
            else if left < 2 then .ok none
            else
              match readByte msg (i + 1) with
              | .error fault => .error fault
              | .ok len =>
                  let optLen := len.toNat + 2
                  if mhOptLenChk type.toNat optLen then .ok none
                  else if type.toNat = 1 then
                    optLoopRead msg fuel (left - optLen) (i + optLen) bauth mhOpts
                  else
                    match recordOptRead mhOpts type.toNat i with
                    | .error fault => .error fault
                    | .ok none => .ok none
                    | .ok (some mhOpts) =>
                        optLoopRead msg fuel (left - optLen) (i + optLen) (type.toNat = 5) mhOpts

def mhOptParseRead (msg : List UInt8) (offset : Nat) : Except Fault (Option MhOptions) :=
  optLoopRead msg (msg.length - offset) (msg.length - offset) offset false MhOptions.zero

def memory (msg : List UInt8) : Buffer := fun i => msg.getD i 0

theorem readByte_inside {msg : List UInt8} {i : Nat} (inside : i < msg.length) :
    readByte msg i = .ok (memory msg i) := readByteOr_inside Fault.message inside

/-! ## What the loop does -/

def Unlisted (type : Nat) : Prop := 7 ≤ type ∧ type ≤ ip6MhoptMax

instance (type : Nat) : Decidable (Unlisted type) :=
  inferInstanceAs (Decidable (7 ≤ type ∧ type ≤ ip6MhoptMax))

def UnlistedOnce (mh : Buffer) (offsets : List Nat) : Prop :=
  ((offsets.map (typeAt mh)).filter fun type => Unlisted type).Nodup

instance (mh : Buffer) (offsets : List Nat) : Decidable (UnlistedOnce mh offsets) :=
  inferInstanceAs (Decidable (List.Nodup _))

def RepeatsUnlisted (mh : Buffer) (before : List Nat) (i : Nat) : Prop :=
  Unlisted (typeAt mh i) ∧ ∃ j ∈ before, typeAt mh j = typeAt mh i

instance (mh : Buffer) (before : List Nat) (i : Nat) : Decidable (RepeatsUnlisted mh before i) :=
  inferInstanceAs (Decidable (_ ∧ _))

abbrev lenient : Nat → Bool := fun _ => true

theorem readDupOk_eq (type : Nat) :
    readDupOk type = if 7 ≤ type then .error .table else .ok (mhOptsDupOk lenient type) := by
  match type with
  | 0 => rfl
  | 1 => rfl
  | 2 => rfl
  | 3 => rfl
  | 4 => rfl
  | 5 => rfl
  | 6 => rfl
  | type + 7 => rw [if_pos (Nat.le_add_left 7 type)]; rfl

theorem mhOptsDupOk_unlisted {type : Nat} (unlisted : 7 ≤ type) (dupBeyond : Nat → Bool) :
    mhOptsDupOk dupBeyond type = dupBeyond type := by
  match type, unlisted with
  | type + 7, _ => rfl

theorem UnlistedOnce.of_append {mh : Buffer} {first second : List Nat}
    (once : UnlistedOnce mh (first ++ second)) : UnlistedOnce mh first := by
  rw [UnlistedOnce, List.map_append, List.filter_append] at once
  exact once.of_append_left

section Loop
variable {msg : List UInt8} {i : Nat} {before : List Nat} {bauth : Bool} {mhOpts : MhOptions}

theorem unlistedOnce_snoc (mh : Buffer) :
    UnlistedOnce mh (before ++ [i]) ↔ UnlistedOnce mh before ∧ ¬ RepeatsUnlisted mh before i := by
  simp only [UnlistedOnce, RepeatsUnlisted, List.map_append, List.filter_append, List.map_cons,
    List.map_nil, List.filter_cons, List.filter_nil]
  by_cases unlisted : Unlisted (typeAt mh i)
  · have found : (∃ j ∈ before, typeAt mh j = typeAt mh i) ↔
        typeAt mh i ∈ (before.map (typeAt mh)).filter fun type => Unlisted type := by
      simp [unlisted]
    rw [found]
    simp only [unlisted, decide_true, if_true, true_and]
    rw [← List.concat_eq_append, List.nodup_concat, and_comm]
  · simp [unlisted]

theorem recordOptRead_eq (mh : Buffer) (tracks : Tracks mh before bauth mhOpts)
    (large : 2 ≤ typeAt mh i) :
    recordOptRead mhOpts (typeAt mh i) i =
      if Repeats lenient mh before i then .ok none
      else if RepeatsUnlisted mh before i then .error .table
      else .ok (some (recorded mh mhOpts i)) := by
  simp only [recordOptRead, recorded, Repeats, RepeatsUnlisted, Recorded, Unlisted, readDupOk_eq]
  by_cases known : typeAt mh i ≤ ip6MhoptMax
  · have seen := tracks.seen _ ⟨large, known⟩
    by_cases fresh : mhOpts.opts (typeAt mh i) = 0
    · simp [known, large, fresh, seen.mp fresh]
    · have again : ∃ j ∈ before, typeAt mh j = typeAt mh i :=
        not_not.mp fun none => fresh (seen.mpr none)
      by_cases unlisted : 7 ≤ typeAt mh i
      · simp [known, large, fresh, again, unlisted, mhOptsDupOk_unlisted unlisted]
      · by_cases allowed : mhOptsDupOk lenient (typeAt mh i) = true
        · simp [known, large, fresh, again, unlisted, allowed]
        · simp [known, large, fresh, again, unlisted, allowed]
  · simp [known]

theorem optLoopRead_succ (fuel left : Nat) (isLeft : msg.length - i = left + 1) :
    optLoopRead msg (fuel + 1) (left + 1) i bauth mhOpts =
      if bauth then .ok none
      else if typeAt (memory msg) i = 0 then optLoopRead msg fuel left (i + 1) bauth mhOpts
      else if msg.length < i + 2 ∨
          mhOptLenChk (typeAt (memory msg) i) ((memory msg (i + 1)).toNat + 2) = true then .ok none
      else if typeAt (memory msg) i = 1 then
        optLoopRead msg fuel (left + 1 - ((memory msg (i + 1)).toNat + 2))
          (i + ((memory msg (i + 1)).toNat + 2)) bauth mhOpts
      else
        match recordOptRead mhOpts (typeAt (memory msg) i) i with
        | .error fault => .error fault
        | .ok none => .ok none
        | .ok (some mhOpts) =>
            optLoopRead msg fuel (left + 1 - ((memory msg (i + 1)).toNat + 2))
              (i + ((memory msg (i + 1)).toNat + 2)) (typeAt (memory msg) i = 5) mhOpts := by
  rw [optLoopRead, readByte_inside (by omega)]
  · by_cases short : left + 1 < 2
    · have cut : msg.length < i + 2 := by omega
      simp [short, cut, typeAt]
    · have whole : ¬ msg.length < i + 2 := by omega
      rw [readByte_inside (by omega)]
      simp only [if_neg short, whole, false_or]
      rfl
  · exact Nat.succ_ne_zero left

/-- The checked loop takes the turns of the other one, but for the table. -/
theorem optLoopRead_turn (fuel : Nat) (inside : i < msg.length)
    (tracks : Tracks (memory msg) before bauth mhOpts) :
    optLoopRead msg (fuel + 1) (msg.length - i) i bauth mhOpts =
      if Refused lenient (memory msg) msg.length before i then .ok none
      else if RepeatsUnlisted (memory msg) before i then .error .table
      else optLoopRead msg fuel (msg.length - (i + (optionFraming (memory msg)).size i))
        (i + (optionFraming (memory msg)).size i) (decide (typeAt (memory msg) i = 5))
        (recorded (memory msg) mhOpts i) := by
  obtain ⟨left, isLeft⟩ : ∃ left, msg.length - i = left + 1 := ⟨msg.length - i - 1, by omega⟩
  have next : ∀ size, msg.length - (i + size) = left + 1 - size := by omega
  rw [next]
  nth_rewrite 1 [isLeft]
  rw [optLoopRead_succ fuel left isLeft]
  cases bauth with
  | true =>
      have refused : Refused lenient (memory msg) msg.length before i :=
        Or.inl (tracks.bauth.mp rfl)
      rw [if_pos refused, if_pos rfl]
  | false =>
      have unsigned : ¬ ∃ j ∈ before, typeAt (memory msg) j = 5 := fun found =>
        Bool.false_ne_true (tracks.bauth.mpr found)
      rw [if_neg Bool.false_ne_true]
      simp only [Refused, unsigned, false_or]
      by_cases zero : typeAt (memory msg) i = 0
      · simp [zero, size_pad1 zero, recorded_pad (Or.inl zero), RepeatsUnlisted, Unlisted]
      · rw [if_neg zero, size_option zero]
        simp only [ne_eq, zero, not_false_eq_true, true_and]
        by_cases malformed : msg.length < i + 2 ∨
            mhOptLenChk (typeAt (memory msg) i) ((memory msg (i + 1)).toNat + 2) = true
        · rw [if_pos malformed, if_pos (malformed.imp_right Or.inl)]
        · rw [if_neg malformed]
          simp only [not_or] at malformed
          simp only [malformed, false_or, Bool.false_eq_true]
          by_cases padN : typeAt (memory msg) i = 1
          · simp [padN, Repeats, Recorded, RepeatsUnlisted, Unlisted, recorded_pad (Or.inr padN)]
          · rw [if_neg padN, recordOptRead_eq (memory msg) tracks (by omega)]
            by_cases repeats : Repeats lenient (memory msg) before i
            · rw [if_pos repeats, if_pos repeats]
            · rw [if_neg repeats, if_neg repeats]
              by_cases unlisted : RepeatsUnlisted (memory msg) before i
              · rw [if_pos unlisted, if_pos unlisted]
              · rw [if_neg unlisted, if_neg unlisted]

/-- The outcome of the parser: an entry behind the table is read exactly when a
type that has none is repeated, and no other read goes wrong. -/
theorem optLoopRead_eq {fuel : Nat} (enough : msg.length - i ≤ fuel) (positive : 0 < i)
    (tracks : Tracks (memory msg) before bauth mhOpts) (once : UnlistedOnce (memory msg) before) :
    let rest := (optionFraming (memory msg)).offsets i msg.length
    let reached := walked lenient (memory msg) msg.length before rest
    optLoopRead msg fuel (msg.length - i) i bauth mhOpts =
      if UnlistedOnce (memory msg) (before ++ reached) then
        .ok (if reached = rest then some (rest.foldl (recorded (memory msg)) mhOpts) else none)
      else .error .table := by
  intro rest reached
  simp only [reached, rest]
  induction i using (optionFraming (memory msg)).offsets_induction msg.length
      generalizing fuel before bauth mhOpts with
  | ends i outside =>
      rw [Nat.sub_eq_zero_of_le outside, Framing.offsets_nil _ outside, walked, List.append_nil,
        if_pos once, if_pos rfl]
      cases fuel with
      | zero => rfl
      | succ fuel => rfl
  | record i inside ih =>
      have advances := (optionFraming (memory msg)).pos i
      obtain ⟨fuel, rfl⟩ : ∃ less, fuel = less + 1 := ⟨fuel - 1, by omega⟩
      rw [optLoopRead_turn fuel inside tracks, Framing.offsets_cons _ inside, walked]
      by_cases refused : Refused lenient (memory msg) msg.length before i
      · rw [if_pos refused, if_pos refused, List.append_nil, if_pos once,
          if_neg (List.cons_ne_nil _ _).symm]
      · have unsigned : ¬ ∃ j ∈ before, typeAt (memory msg) j = 5 := fun found =>
          refused (Or.inl found)
        rw [if_neg refused, if_neg refused]
        by_cases unlisted : RepeatsUnlisted (memory msg) before i
        · have twice : ¬ UnlistedOnce (memory msg) (before ++ i ::
              walked lenient (memory msg) msg.length (before ++ [i])
                ((optionFraming (memory msg)).offsets
                  (i + (optionFraming (memory msg)).size i) msg.length)) := by
            rw [List.append_cons]
            exact fun both => ((unlistedOnce_snoc (memory msg)).mp both.of_append).2 unlisted
          rw [if_pos unlisted, if_neg twice]
        · have next := (unlistedOnce_snoc (memory msg)).mpr ⟨once, unlisted⟩
          rw [if_neg unlisted, List.foldl_cons,
            ih (by omega) (by omega) (tracks.snoc positive unsigned) next]
          simp only [List.cons.injEq, true_and, List.append_assoc, List.singleton_append]

end Loop

def reachedOptions (msg : List UInt8) (offset : Nat) : List Nat :=
  walked lenient (memory msg) msg.length []
    ((optionFraming (memory msg)).offsets offset msg.length)

theorem mhOptParseRead_eq {msg : List UInt8} {offset : Nat} (positive : 0 < offset) :
    mhOptParseRead msg offset =
      if UnlistedOnce (memory msg) (reachedOptions msg offset) then
        .ok (if reachedOptions msg offset =
            (optionFraming (memory msg)).offsets offset msg.length then
          some (recordedOptions (memory msg) msg.length offset) else none)
      else .error .table :=
  optLoopRead_eq (Nat.le_refl _) positive (tracks_zero _) (List.nodup_nil)

theorem mhOptsDupOk_listed {type : Nat} (listed : type < 7) (dupBeyond : Nat → Bool) :
    mhOptsDupOk dupBeyond type = mhOptsDupOk lenient type := by
  match type with
  | 0 => rfl
  | 1 => rfl
  | 2 => rfl
  | 3 => rfl
  | 4 => rfl
  | 5 => rfl
  | 6 => rfl
  | type + 7 => exact absurd listed (Nat.not_lt.mpr (Nat.le_add_left 7 type))

section Lenient
variable {dupBeyond : Nat → Bool} {mh : Buffer} {len : Nat} {before rest : List Nat} {i : Nat}

theorem Repeats.of_lenient (repeats : Repeats lenient mh before i) :
    Repeats dupBeyond mh before i := by
  obtain ⟨isRecorded, again, disallowed⟩ := repeats
  refine ⟨isRecorded, again, ?_⟩
  by_cases unlisted : 7 ≤ typeAt mh i
  · rw [mhOptsDupOk_unlisted unlisted] at disallowed
    cases disallowed
  · rw [mhOptsDupOk_listed (Nat.not_le.mp unlisted)]
    exact disallowed

/-- What lies behind the table does not matter when it is not read. -/
theorem repeats_lenient (listed : ¬ RepeatsUnlisted mh before i) :
    Repeats dupBeyond mh before i ↔ Repeats lenient mh before i := by
  refine ⟨fun repeats => ?_, Repeats.of_lenient⟩
  obtain ⟨isRecorded, again, disallowed⟩ := repeats
  have small : typeAt mh i < 7 := by
    by_contra unlisted
    exact listed ⟨⟨Nat.not_lt.mp unlisted, isRecorded.2⟩, again⟩
  rw [mhOptsDupOk_listed small] at disallowed
  exact ⟨isRecorded, again, disallowed⟩

variable (dupBeyond) in
theorem walked_lenient (once : UnlistedOnce mh (before ++ walked lenient mh len before rest)) :
    walked dupBeyond mh len before rest = walked lenient mh len before rest := by
  induction rest generalizing before with
  | nil => rfl
  | cons i rest ih =>
      rw [walked] at once
      rw [walked, walked]
      by_cases refused : Refused lenient mh len before i
      · have still : Refused dupBeyond mh len before i :=
          refused.imp_right fun both => ⟨both.1, both.2.imp_right (Or.imp_right Repeats.of_lenient)⟩
        rw [if_pos refused, if_pos still]
      · rw [if_neg refused, List.append_cons] at once
        have listed := ((unlistedOnce_snoc mh).mp once.of_append).2
        have same : Refused dupBeyond mh len before i ↔ Refused lenient mh len before i := by
          rw [Refused, Refused, repeats_lenient listed]
        rw [if_neg refused, if_neg fun given => refused (same.mp given), ih once]

end Lenient

theorem mhOptParseRead_refines {msg : List UInt8} {offset : Nat} (positive : 0 < offset)
    {outcome : Option MhOptions} (read : mhOptParseRead msg offset = .ok outcome)
    (dupBeyond : Nat → Bool) :
    mhOptParse dupBeyond (memory msg) msg.length offset = outcome := by
  rw [mhOptParseRead_eq positive] at read
  split at read
  · rename_i once
    rw [mhOptParse_eq dupBeyond _ positive, walked_lenient dupBeyond once]
    exact Except.ok.inj read
  · cases read

/-! ## Bounds -/

/-- What `mh_pbu_parse` and `mh_pba_parse` copy out of the first option of a type:
the type, where the bytes are in the option and how many. -/
def copiedFields : List (Nat × Nat × Nat) :=
  [(0x08, 3, 63), (0x16, 4, 16), (0x19, 4, 8), (0x1B, 2, 8)]

/-- The parser reads only bytes of the message and entries of the table, and what
it records, and what is copied afterwards, lies in the message. -/
def StaysInside (msg : List UInt8) (offset : Nat) : Prop :=
  ∃ outcome, mhOptParseRead msg offset = .ok outcome ∧ ∀ mhOpts, outcome = some mhOpts →
    (∀ type i, (mhOpts.opts type = i ∨ mhOpts.optsEnd type = i) → i ≠ 0 →
      i + (optionFraming (memory msg)).size i ≤ msg.length) ∧
    ∀ field ∈ copiedFields, ∀ i, mhOpt mhOpts field.1 = some i →
      i + field.2.1 + field.2.2 ≤ msg.length

/-- No type behind the end of the table is repeated.  In a message that is not
refused, the last option is not longer than the message, unless it is not
recorded, and the options that are copied from are followed by enough bytes. -/
structure BoundsHold (msg : List UInt8) (offset : Nat) : Prop where
  once : UnlistedOnce (memory msg) (reachedOptions msg offset)
  last : reachedOptions msg offset = (optionFraming (memory msg)).offsets offset msg.length →
    ∀ i, ((optionFraming (memory msg)).offsets offset msg.length).getLast? = some i →
      Recorded (typeAt (memory msg) i) →
      i + (optionFraming (memory msg)).size i ≤ msg.length
  copied : reachedOptions msg offset = (optionFraming (memory msg)).offsets offset msg.length →
    ∀ field ∈ copiedFields, ∀ i,
      (ofType (memory msg) field.1
        ((optionFraming (memory msg)).offsets offset msg.length)).head? = some i →
      i + field.2.1 + field.2.2 ≤ msg.length

section Bounds
variable {mh : Buffer} {len offset : Nat}

theorem recordedOptions_mem (positive : 0 < offset) {type i : Nat} (notZero : i ≠ 0)
    (isRecorded : (recordedOptions mh len offset).opts type = i ∨
      (recordedOptions mh len offset).optsEnd type = i) :
    i ∈ (optionFraming mh).offsets offset len ∧ Recorded (typeAt mh i) := by
  by_cases known : Recorded type
  · have member : i ∈ ofType mh type ((optionFraming mh).offsets offset len) := by
      rw [recordedOptions_first positive known, recordedOptions_last positive known] at isRecorded
      rcases isRecorded with first | last
      · cases found : (ofType mh type ((optionFraming mh).offsets offset len)).head? with
        | none =>
            rw [found, Option.getD_none] at first
            exact absurd first.symm notZero
        | some j =>
            rw [found, Option.getD_some] at first
            rw [← first]
            exact List.mem_of_head? found
      · cases found : (ofType mh type ((optionFraming mh).offsets offset len)).tail.getLast? with
        | none =>
            rw [found, Option.getD_none] at last
            exact absurd last.symm notZero
        | some j =>
            rw [found, Option.getD_some] at last
            rw [← last]
            exact List.mem_of_mem_tail (List.mem_of_getLast? found)
    have isType : typeAt mh i = type := by simpa using List.of_mem_filter member
    exact ⟨List.mem_of_mem_filter member, by rw [isType]; exact known⟩
  · have nothing := @foldl_recorded_none mh type ((optionFraming mh).offsets offset len)
      MhOptions.zero known
    rcases isRecorded with first | last
    · exact absurd (first.symm.trans nothing.1) notZero
    · exact absurd (last.symm.trans nothing.2) notZero

theorem recordedOptions_getLast (positive : 0 < offset) {i : Nat}
    (last : ((optionFraming mh).offsets offset len).getLast? = some i)
    (known : Recorded (typeAt mh i)) :
    (recordedOptions mh len offset).opts (typeAt mh i) = i ∨
      (recordedOptions mh len offset).optsEnd (typeAt mh i) = i := by
  rw [recordedOptions_first positive known, recordedOptions_last positive known]
  obtain ⟨front, are⟩ := List.getLast?_eq_some_iff.mp last
  have ofSame : ofType mh (typeAt mh i) ((optionFraming mh).offsets offset len) =
      ofType mh (typeAt mh i) front ++ [i] := by
    rw [are]
    simp [ofType]
  rw [ofSame]
  cases ofType mh (typeAt mh i) front with
  | nil => exact Or.inl rfl
  | cons first rest =>
      right
      rw [List.cons_append, List.tail_cons, List.getLast?_append]
      rfl

theorem copiedFields_recorded : ∀ field ∈ copiedFields, Recorded field.1 := by decide

end Bounds

section
variable {msg : List UInt8} {offset : Nat}

theorem StaysInside.bounds (stays : StaysInside msg offset) (positive : 0 < offset) :
    BoundsHold msg offset := by
  rw [StaysInside, mhOptParseRead_eq positive] at stays
  obtain ⟨outcome, read, inside⟩ := stays
  split at read
  · rename_i once
    obtain rfl := Except.ok.inj read
    refine ⟨once, fun accepted i last known => ?_, fun accepted field member i first => ?_⟩
    · obtain ⟨recorded, _⟩ := inside _ (if_pos accepted)
      have range := (optionFraming (memory msg)).offsets_range i (List.mem_of_getLast? last)
      exact recorded _ i (recordedOptions_getLast positive last known) (by omega)
    · obtain ⟨_, copied⟩ := inside _ (if_pos accepted)
      apply copied field member
      rw [mhOpt_recorded positive (copiedFields_recorded field member)]
      exact first
  · cases read

theorem BoundsHold.stays (holds : BoundsHold msg offset) (positive : 0 < offset) :
    StaysInside msg offset := by
  rw [StaysInside, mhOptParseRead_eq positive]
  refine ⟨_, if_pos holds.once, fun mhOpts parsed => ?_⟩
  split at parsed
  · rename_i accepted
    cases parsed
    refine ⟨fun type i isRecorded notZero => ?_, fun field member i first => ?_⟩
    · obtain ⟨isOption, known⟩ := recordedOptions_mem positive notZero isRecorded
      rcases (optionFraming (memory msg)).offsets_getLast isOption with last | further
      · exact holds.last accepted i last known
      · exact Nat.le_of_lt further
    · apply holds.copied accepted field member
      rw [← mhOpt_recorded positive (copiedFields_recorded field member)]
      exact first
  · cases parsed

end

/-- The parser and its callers stay inside exactly under the condition. -/
theorem parser_bounds_iff (msg : List UInt8) {offset : Nat} (fixed : 12 ≤ offset) :
    StaysInside msg offset ↔ BoundsHold msg offset :=
  ⟨fun stays => stays.bounds (by omega), fun holds => holds.stays (by omega)⟩

/-- An acknowledgement with a home network prefix. -/
theorem parser_bounds_iff_prefix :
    StaysInside (List.replicate 12 0 ++ 0x16 :: 18 :: List.replicate 18 0) 12 := by
  have options : (optionFraming (memory (List.replicate 12 0 ++ 0x16 :: 18 ::
      List.replicate 18 0))).offsets 12 32 = [12] := by decide +kernel
  apply (parser_bounds_iff _ (by decide)).mpr
  refine ⟨by decide +kernel, fun _ i last _ => ?_, fun _ field member i first => ?_⟩
  · change List.getLast? (Framing.offsets _ 12 32) = some i at last
    rw [options] at last
    cases last
    decide +kernel
  · change (ofType _ _ (Framing.offsets _ 12 32)).head? = some i at first
    rw [options] at first
    have only : ∀ field ∈ copiedFields,
        (ofType (memory (List.replicate 12 0 ++ 0x16 :: 18 :: List.replicate 18 0)) field.1
          [12]).head? = none ∨ 12 + field.2.1 + field.2.2 ≤ 32 := by decide +kernel
    have isTwelve : i = 12 := List.mem_singleton.mp
      (List.mem_of_mem_filter (List.mem_of_head? first))
    subst isTwelve
    refine (only field member).resolve_left ?_
    rw [first]
    exact Option.some_ne_none _

/-- Two link-layer identifiers need the table's entry of their type, a handoff
indicator of eight bytes is not in the message, and the name of an identifier
option that has one byte is copied from behind the message. -/
theorem parser_leaves_message :
    mhOptParseRead (List.replicate 12 0 ++ [0x19, 0, 0x19, 0]) 12 = .error .table ∧
      (¬ StaysInside (List.replicate 12 0 ++ [0x17, 6, 0, 3]) 12) ∧
      (¬ StaysInside (List.replicate 12 0 ++ [0x08, 1, 1]) 12) ∧
      ¬ ∀ msg offset, 12 ≤ offset → offset ≤ msg.length → StaysInside msg offset := by
  have overrun : ¬ StaysInside (List.replicate 12 0 ++ [0x17, 6, 0, 3]) 12 := by
    intro stays
    have bound := (stays.bounds (by decide)).last (by decide +kernel) 12 (by decide +kernel)
      (by decide +kernel)
    revert bound
    decide +kernel
  refine ⟨?_, overrun, ?_, ?_⟩
  · rw [mhOptParseRead_eq (by decide), if_neg (by decide +kernel)]
  · intro stays
    have bound := (stays.bounds (by decide)).copied (by decide +kernel) (0x08, 3, 63)
      (by decide) 12 (by decide +kernel)
    revert bound
    decide +kernel
  · intro claimed
    exact overrun (claimed _ 12 (by decide) (by decide))

end OaiPmip.Msgs
