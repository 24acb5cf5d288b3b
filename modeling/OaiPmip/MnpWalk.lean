import OaiPmip.HaPrefixes
import OaiPmip.MhOptions

/-!
# The walk over repeated options, mh_opt_next of mh.h

The parser keeps the first and the last option of a type, and `mh_opt_next` goes
over the bytes again from one to the next.  Both walks find the same options.
-/

set_option autoImplicit false

namespace OaiPmip.Ha

open OaiPmip.Msgs OaiPmip.Records

variable {mh : Buffer}

theorem optNextLoop_eq (type : UInt8) (last : Nat) {fuel i : Nat} (enough : last - i ≤ fuel) :
    optNextLoop mh type last fuel i =
      ((optionFraming mh).offsets (i + (optionFraming mh).size i) (last + 1)).find?
        fun j => mh j = type := by
  have advances := (optionFraming mh).pos i
  induction fuel generalizing i with
  | zero => rw [Framing.offsets_nil _ (by omega), optNextLoop, List.find?_nil]
  | succ fuel ih =>
      have step : (if mh i = 0 then i + 1 else i + ((mh (i + 1)).toNat + 2)) =
          i + (optionFraming mh).size i := by
        simp only [optionFraming]
        split
        · rfl
        · rfl
      simp only [optNextLoop, step]
      by_cases inside : i < last
      · rw [if_pos inside, ih (by omega) ((optionFraming mh).pos _)]
        by_cases within : i + (optionFraming mh).size i ≤ last
        · rw [Framing.offsets_cons _ (Nat.lt_succ_of_le within), List.find?_cons]
          by_cases same : mh (i + (optionFraming mh).size i) = type
          · simp [within, same]
          · simp [same]
        · have after := (optionFraming mh).pos (i + (optionFraming mh).size i)
          rw [if_neg fun both => within both.1, Framing.offsets_nil _ (by omega),
            Framing.offsets_nil _ (by omega)]
      · rw [if_neg inside, Framing.offsets_nil _ (by omega), List.find?_nil]

theorem optsFrom_eq (mhOpts : MhOptions) {type : UInt8} {fuel opt : Nat} (isType : mh opt = type)
    (enough : mhOpts.optsEnd type.toNat - opt ≤ fuel) :
    optsFrom mh mhOpts fuel opt =
      opt :: ((optionFraming mh).offsets (opt + (optionFraming mh).size opt)
        (mhOpts.optsEnd type.toNat + 1)).filter fun j => mh j = type := by
  have next : mhOptNext mh mhOpts opt =
      ((optionFraming mh).offsets (opt + (optionFraming mh).size opt)
        (mhOpts.optsEnd type.toNat + 1)).find? fun j => mh j = type := by
    rw [mhOptNext, isType]
    exact optNextLoop_eq type _ (Nat.le_refl _)
  induction fuel generalizing opt with
  | zero =>
      have advances := (optionFraming mh).pos opt
      rw [optsFrom, Framing.offsets_nil _ (by omega), List.filter_nil]
  | succ fuel ih =>
      rw [optsFrom, next, Framing.filter_offsets]
      cases found : ((optionFraming mh).offsets (opt + (optionFraming mh).size opt)
        (mhOpts.optsEnd type.toNat + 1)).find? fun j => mh j = type with
      | none => rfl
      | some following =>
          have sameType : mh following = type := by simpa using List.find?_some found
          have range := (optionFraming mh).offsets_range following (List.mem_of_find?_eq_some found)
          have advances := (optionFraming mh).pos opt
          refine congrArg (opt :: ·) (ih sameType (by omega) ?_)
          rw [mhOptNext, sameType]
          exact optNextLoop_eq type _ (Nat.le_refl _)

theorem filter_type (type : UInt8) (offsets : List Nat) :
    (offsets.filter fun j => mh j = type) = ofType mh type.toNat offsets := by
  apply List.filter_congr
  intro j _
  simp only [typeAt, UInt8.toNat_inj]

theorem ofType_tail {len offset first type : Nat} {rest : List Nat} (positive : 0 < offset)
    (are : ofType mh type ((optionFraming mh).offsets offset len) = first :: rest) :
    ofType mh type ((optionFraming mh).offsets (first + (optionFraming mh).size first)
      (rest.getLast?.getD 0 + 1)) = rest := by
  have increasing : (first :: rest).Pairwise (· < ·) := by
    rw [← are]
    exact (optionFraming mh).offsets_increasing.filter _
  have members : ∀ i ∈ first :: rest, offset ≤ i ∧ i < len := by
    rw [← are]
    exact fun i member => (optionFraming mh).offsets_range i (List.mem_of_mem_filter member)
  have behind : ofType mh type ((optionFraming mh).offsets
      (first + (optionFraming mh).size first) len) = rest := by
    have split := @Framing.filter_offsets (optionFraming mh) offset len
      fun i => decide (typeAt mh i = type)
    have filtered : ((optionFraming mh).offsets offset len).filter
        (fun i => decide (typeAt mh i = type)) = first :: rest := are
    rw [← List.head?_filter, filtered] at split
    exact (List.cons.inj split).2.symm
  cases last : rest.getLast? with
  | none =>
      have empty : rest = [] := List.getLast?_eq_none_iff.mp last
      have start := (members first List.mem_cons_self).1
      rw [empty, Framing.offsets_nil]
      · rfl
      · simp only [Option.getD_none]
        omega
  | some last' =>
      have isLast := List.mem_of_getLast? last
      have within := (members last' (List.mem_cons_of_mem _ isLast)).2
      rw [Option.getD_some, Framing.offsets_cut _ (Nat.succ_le_of_lt within), ofType,
        List.filter_comm]
      change (ofType mh type _).filter _ = _
      rw [behind, List.filter_eq_self]
      intro i member
      obtain ⟨front, rfl⟩ := List.getLast?_eq_some_iff.mp last
      have before := (List.pairwise_append.mp (List.pairwise_cons.mp increasing).2).2.2
      simp only [decide_eq_true_eq]
      rcases List.mem_append.mp member with early | isLast
      · exact Nat.lt_succ_of_lt (before i early last' (List.mem_singleton_self _))
      · exact Nat.lt_succ_of_le (Nat.le_of_eq (List.mem_singleton.mp isLast))

theorem optsFrom_recorded {len offset first type : Nat} {rest : List Nat} (positive : 0 < offset)
    (isRecorded : Recorded type)
    (are : ofType mh type ((optionFraming mh).offsets offset len) = first :: rest) {fuel : Nat}
    (enough : (recordedOptions mh len offset).optsEnd type - first ≤ fuel) :
    optsFrom mh (recordedOptions mh len offset) fuel first = first :: rest := by
  have isType : typeAt mh first = type := by
    have member : first ∈ ofType mh type ((optionFraming mh).offsets offset len) := by
      rw [are]
      exact List.mem_cons_self
    simpa using List.of_mem_filter member
  have last : (recordedOptions mh len offset).optsEnd type = rest.getLast?.getD 0 := by
    rw [recordedOptions_last positive isRecorded, are, List.tail_cons]
  have isEnd : (recordedOptions mh len offset).optsEnd (mh first).toNat = rest.getLast?.getD 0 := by
    rw [← last, ← isType]
    rfl
  rw [optsFrom_eq _ rfl (by rw [isEnd, ← last]; exact enough), isEnd, filter_type]
  change first :: ofType mh (typeAt mh first) _ = _
  rw [isType, ofType_tail positive are]

theorem optsVisited_recorded {len offset type : Nat} (positive : 0 < offset)
    (isRecorded : Recorded type) :
    optsVisited mh (recordedOptions mh len offset) type =
      ofType mh type ((optionFraming mh).offsets offset len) := by
  rw [optsVisited, mhOpt_recorded positive isRecorded]
  cases are : ofType mh type ((optionFraming mh).offsets offset len) with
  | nil => rfl
  | cons i rest =>
      have member : i ∈ ofType mh type ((optionFraming mh).offsets offset len) := by
        rw [are]
        exact List.mem_cons_self
      have isType : typeAt mh i = type := by simpa using List.of_mem_filter member
      apply optsFrom_recorded positive isRecorded are
      rw [← isType]
      exact Nat.le_refl _

/-- The walk over the options of a type finds exactly those of the message, each
once and from the front to the back, and ends. -/
theorem mh_opt_next_enumerates (dupBeyond : Nat → Bool) {len offset : Nat} {mhOpts : MhOptions}
    (positive : 0 < offset) (accepted : mhOptParse dupBeyond mh len offset = some mhOpts)
    {type : Nat} (isRecorded : Recorded type) :
    optsVisited mh mhOpts type = ofType mh type ((optionFraming mh).offsets offset len) ∧
      (optsVisited mh mhOpts type).Pairwise (· < ·) ∧
      (∀ i ∈ optsVisited mh mhOpts type, ∀ j ∈ (optionFraming mh).offsets offset len, j ≠ i →
        i < j ∨ j + (optionFraming mh).size j ≤ i) ∧
      ∀ opt fuel, mhOpt mhOpts type = some opt → mhOpts.optsEnd type - opt ≤ fuel →
        optsFrom mh mhOpts fuel opt = optsVisited mh mhOpts type := by
  rw [mhOptParse_eq dupBeyond mh positive] at accepted
  split at accepted
  · cases accepted
    have visited : optsVisited mh (recordedOptions mh len offset) type = _ :=
      optsVisited_recorded positive isRecorded
    rw [visited]
    refine ⟨rfl, (optionFraming mh).offsets_increasing.filter _, ?_, ?_⟩
    · intro i isVisited j member differs
      have advances := (optionFraming mh).pos i
      rcases (optionFraming mh).offsets_disjoint (List.mem_of_mem_filter isVisited) member
        differs.symm with before | after
      · exact Or.inl (by omega)
      · exact Or.inr after
    · intro opt fuel isFirst enough
      rw [mhOpt_recorded positive isRecorded] at isFirst
      cases are : ofType mh type ((optionFraming mh).offsets offset len) with
      | nil =>
          rw [are] at isFirst
          cases isFirst
      | cons i rest =>
          rw [are] at isFirst
          cases isFirst
          exact optsFrom_recorded positive isRecorded are enough
  · cases accepted

/-- Two prefixes with a pad between them. -/
theorem mh_opt_next_enumerates_two :
    let mh : Buffer := fun i => if i = 12 ∨ i = 36 then 6 else if i = 13 ∨ i = 37 then 18 else 0
    mhOptParse (fun _ => false) mh 56 12 = some (recordedOptions mh 56 12) ∧
      optsVisited mh (recordedOptions mh 56 12) 6 = [12, 36] := by
  intro mh
  have accepted : mhOptParse (fun _ => false) mh 56 12 = some (recordedOptions mh 56 12) := by
    rw [mhOptParse_eq _ _ (by decide), if_pos (by decide +kernel)]
  refine ⟨accepted, ?_⟩
  rw [(mh_opt_next_enumerates (fun _ => false) (by decide) accepted (by decide)).1]
  decide +kernel

end OaiPmip.Ha
