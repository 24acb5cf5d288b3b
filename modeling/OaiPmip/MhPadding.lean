import OaiPmip.Lib.Padding
import OaiPmip.MhCodec

/-!
# Padding of signalling messages, mh_try_pad of pmip_msgs.c

Every option goes where its alignment allows it, behind the least padding, and a
vector that is padded already stays as it is.  So a retransmission, which pads
the vector that was kept, sends the bytes of an update that was padded twice.
-/

set_option autoImplicit false

namespace OaiPmip.Msgs

open OaiPmip.Padding OaiPmip.Wire

def alignmentOf : Nat → Option AlignRule
  | 0x02 => some ⟨2, 0, by decide⟩
  | 0x03 => some ⟨8, 6, by decide⟩
  | 0x04 => some ⟨2, 0, by decide⟩
  | 0x05 => some ⟨8, 2, by decide⟩
  | 0x08 => some .anywhere
  | 0x16 => some ⟨8, 4, by decide⟩
  | 0x17 => some .anywhere
  | 0x18 => some .anywhere
  | 0x19 => some ⟨8, 0, by decide⟩
  | 0x1A => some ⟨8, 6, by decide⟩
  | 0x1B => some ⟨8, 2, by decide⟩
  | _ => none

def optionRule (option : List UInt8) : Option AlignRule := alignmentOf (optType option)

theorem optionRule_isSome {option : List UInt8} (known : optType option ∈ alignedTypes) :
    (optionRule option).isSome = true := by
  simp only [alignedTypes, List.mem_cons, List.not_mem_nil, or_false] at known
  rcases known with is | is | is | is | is | is | is | is | is | is | is <;>
    simp only [optionRule, is] <;> rfl

theorem padBefore_eq (option : List UInt8) (pad len : Nat) :
    padBefore (option.headD 0) pad len = padFor len pad (optionRule option) := by
  simp only [padBefore, optionRule, optType]
  generalize (option.headD 0).toNat = type
  split
  case h_5 => exact (AlignRule.anywhere_gap len).symm
  case h_7 => exact (AlignRule.anywhere_gap len).symm
  case h_8 => exact (AlignRule.anywhere_gap len).symm
  case h_12 => simp [alignmentOf, padFor, *]
  all_goals rfl

theorem padOptions_eq (len pad : Nat) (options : List (List UInt8)) :
    padOptions len pad options = padWith List.length optionRule createOptPad len pad options := by
  induction options generalizing len pad with
  | nil => rfl
  | cons option rest ih => simp only [padOptions, padWith, padBefore_eq, ih]

/-! ## What padding makes of the options -/

/-- `Pad1`, or `PadN` with its length and zeros. -/
def IsPad (option : List UInt8) : Prop :=
  option = [0] ∨ ∃ n : UInt8, option = 1 :: n :: List.replicate n.toNat 0

/-- The options from `len` on, each where its alignment allows it, with pads
between them. -/
structure PaddedAs (len : Nat) (options padded : List (List UInt8)) : Prop where
  kept : padded.filter (fun option => 2 ≤ optType option) = options
  placed : ∀ before option after, padded = before ++ option :: after → ∀ alignment,
    optionRule option = some alignment → alignment.Allows (len + mhLength before)
  pads : ∀ before pad after, padded = before ++ pad :: after → optType pad < 2 →
    IsPad pad ∧ ∃ option rest alignment, after = option :: rest ∧
      optionRule option = some alignment ∧
      alignment.Allows (len + mhLength before + pad.length) ∧
      ∀ less < pad.length, ¬ alignment.Allows (len + mhLength before + less)

theorem createOptPad_rule (pad : Nat) : optionRule (createOptPad pad) = none := by
  match pad with
  | 0 => rfl
  | 1 => rfl
  | pad + 2 => rfl

theorem createOptPad_type (pad : Nat) : optType (createOptPad pad) < 2 := by
  match pad with
  | 0 => decide
  | 1 => decide
  | pad + 2 => exact Nat.one_lt_two

theorem isPad_createOptPad {pad : Nat} (some : 0 < pad) (short : pad < 258) :
    IsPad (createOptPad pad) := by
  match pad, some with
  | 1, _ => exact Or.inl rfl
  | pad + 2, _ =>
      refine Or.inr ⟨UInt8.ofNat pad, ?_⟩
      have fits : (UInt8.ofNat pad).toNat = pad := by
        rw [UInt8.toNat_ofNat']
        omega
      rw [createOptPad, fits]

theorem optionRule_modulus {option : List UInt8} {alignment : AlignRule}
    (ruled : optionRule option = some alignment) : alignment.modulus ≤ 8 := by
  simp only [optionRule, alignmentOf] at ruled
  split at ruled
  case h_12 => cases ruled
  all_goals
    cases ruled
    decide

theorem optType_of_rule {option : List UInt8} (known : optType option ∈ alignedTypes) :
    2 ≤ optType option := by
  simp only [alignedTypes, List.mem_cons, List.not_mem_nil, or_false] at known
  omega

theorem padOptions_laidOut {options : List (List UInt8)}
    (known : ∀ option ∈ options, optType option ∈ alignedTypes) (len pad : Nat) :
    LaidOut List.length optionRule createOptPad len options (padOptions len pad options) := by
  rw [padOptions_eq]
  exact padWith_laidOut len pad options fun option member => optionRule_isSome (known option member)

theorem padOptions_paddedAs {options : List (List UInt8)}
    (known : ∀ option ∈ options, optType option ∈ alignedTypes) (len pad : Nat) :
    PaddedAs len options (padOptions len pad options) := by
  have laid := padOptions_laidOut known len pad
  constructor
  · have kept := laid.kept (fun option => decide (optType option < 2))
      (fun n _ => decide_eq_true (createOptPad_type n))
      (fun option member => decide_eq_false (Nat.not_lt.mpr (optType_of_rule (known option member))))
    refine (List.filter_congr fun option _ => ?_).trans kept
    rw [← decide_not, decide_eq_decide]
    exact Nat.not_lt.symm
  · intro before option after is alignment ruled
    exact laid.allows (fun n _ => createOptPad_length n) (fun n _ => createOptPad_rule n) is ruled
  · intro before pad after is padType
    have unruled : optionRule pad = none := by
      cases ruled : optionRule pad with
      | none => rfl
      | some alignment =>
          rcases laid.mem (by rw [is]; simp : pad ∈ _) with member | ⟨n, _, _, _, _, _, _, rfl⟩
          · exact absurd padType (Nat.not_lt.mpr (optType_of_rule (known pad member)))
          · rw [createOptPad_rule] at ruled
            cases ruled
    obtain ⟨n, option, rest, alignment, some, small, rfl, isAfter, ruled, allowed, least⟩ :=
      laid.pads (fun n _ => createOptPad_length n) is unruled
    have bound := optionRule_modulus ruled
    refine ⟨isPad_createOptPad some (by omega), option, rest, alignment, isAfter, ruled, ?_, ?_⟩
    · rw [createOptPad_length]
      exact allowed
    · rw [createOptPad_length]
      exact least

theorem mhTryPad_again (header : List UInt8) {options : List (List UInt8)} (some : options ≠ [])
    (known : ∀ option ∈ options, optType option ∈ alignedTypes) :
    mhTryPad (mhTryPad (header :: options)) = mhTryPad (header :: options) := by
  cases options with
  | nil => exact absurd rfl some
  | cons option rest =>
      have laid := padOptions_laidOut known header.length 0
      rw [mhTryPad_cons some, mhTryPad_cons (padOptions_ne_nil option rest _ _), padOptions_eq,
        laid.again (fun n _ => createOptPad_length n) (fun n _ => createOptPad_rule n)]

/-! ## Retransmissions -/

/-- The header as `pmip_mh_send` leaves it in the memory of its caller. -/
def sentHeader (mhVec : List (List UInt8)) : List (List UInt8) :=
  setHdrlen (UInt8.ofNat (mhLength (mhTryPad mhVec) / 8) - 1) mhVec

/-- `mh_send_pbu`: the bytes, and the vector that the entry keeps.  The padded
vector has the header of the kept one. -/
def mhSendPbu (order : ByteOrder) (pbu : Pbu) : List UInt8 × List (List UInt8) :=
  let mhVec := pbuVec order pbu
  let dummy := mhTryPad mhVec
  let hdrlen :=
    UInt8.ofNat (mhLength (mhTryPad (setHdrlen (UInt8.ofNat (mhLength dummy)) dummy)) / 8)
  (padAndSend mhVec, setHdrlen (hdrlen - 1) mhVec)

def setSeqno (order : ByteOrder) (seqno : UInt16) : List (List UInt8) → List (List UInt8)
  | [] => []
  | header :: options =>
      (header.take 6 ++ order.store16 (order.net16 seqno) ++ header.drop 8) :: options

/-- The message of `pmip_timer_retrans_pbu_handler` and the vector after it. -/
def pmipTimerRetransPbu (order : ByteOrder) (seqno : UInt16) (mhVec : List (List UInt8)) :
    List UInt8 × List (List UInt8) :=
  let mhVec := setSeqno order seqno mhVec
  (pmipMhSend mhVec, sentHeader mhVec)

def retransmissions (order : ByteOrder) : List (List UInt8) → List UInt16 → List (List UInt8)
  | _, [] => []
  | mhVec, seqno :: rest =>
      let (bytes, mhVec) := pmipTimerRetransPbu order seqno mhVec
      bytes :: retransmissions order mhVec rest

theorem pmipMhSend_setHdrlen (hdrlen : UInt8) (header : List UInt8)
    (options : List (List UInt8)) :
    pmipMhSend (setHdrlen hdrlen (header :: options)) = pmipMhSend (header :: options) := by
  cases options with
  | nil => simp [pmipMhSend, setHdrlen, mhTryPad, mhLength]
  | cons option rest => simp [pmipMhSend, setHdrlen, mhTryPad, mhLength]

theorem setHdrlen_setHdrlen (first second : UInt8) (mhVec : List (List UInt8)) :
    setHdrlen second (setHdrlen first mhVec) = setHdrlen second mhVec := by
  cases mhVec with
  | nil => rfl
  | cons header options => rw [setHdrlen, setHdrlen, setHdrlen, List.set_set]

theorem setSeqno_pbuVec (order : ByteOrder) (pbu : Pbu) (hdrlen : UInt8) (seqno : UInt16) :
    setSeqno order seqno (setHdrlen hdrlen (pbuVec order pbu)) =
      setHdrlen hdrlen (pbuVec order { pbu with seqno := seqno }) := by
  cases order with
  | little => rfl
  | big => rfl

/-- A retransmission sends the update with the new number, and leaves a vector
that differs from it in the length field only. -/
theorem pmipTimerRetransPbu_eq (order : ByteOrder) (pbu : Pbu) (hdrlen : UInt8) (seqno : UInt16) :
    ∃ hdrlen', pmipTimerRetransPbu order seqno (setHdrlen hdrlen (pbuVec order pbu)) =
      (retransBytes order { pbu with seqno := seqno },
        setHdrlen hdrlen' (pbuVec order { pbu with seqno := seqno })) := by
  have bytes : pmipMhSend (setHdrlen hdrlen (pbuVec order { pbu with seqno := seqno })) =
      retransBytes order { pbu with seqno := seqno } := pmipMhSend_setHdrlen _ _ _
  simp only [pmipTimerRetransPbu, setSeqno_pbuVec, sentHeader, setHdrlen_setHdrlen, bytes]
  exact ⟨_, rfl⟩

theorem retransmissions_eq (order : ByteOrder) (pbu : Pbu) (hdrlen : UInt8) (seqnos : List UInt16) :
    retransmissions order (setHdrlen hdrlen (pbuVec order pbu)) seqnos =
      seqnos.map fun seqno => retransBytes order { pbu with seqno := seqno } := by
  induction seqnos generalizing pbu hdrlen with
  | nil => rfl
  | cons seqno rest ih =>
      obtain ⟨hdrlen', next⟩ := pmipTimerRetransPbu_eq order pbu hdrlen seqno
      simp only [retransmissions, next, List.map_cons, ih]

theorem retransBytes_eq (order : ByteOrder) (pbu : Pbu) :
    retransBytes order pbu =
      (pbuHeader order pbu).set 1
          (UInt8.ofNat ((12 + if pbu.timestamp.isSome then 128 else 112) / 8) - 1) ++
        (pbuOptions order pbu).flatten := by
  have padded : mhTryPad (pbuVec order pbu) = pbuHeader order pbu :: pbuOptions order pbu := by
    rw [pbuVec, mhTryPad_cons (List.cons_ne_nil _ _), pbuHeader_length]
    exact congrArg (_ :: ·) (padOptions_pbuVec order pbu)
  have length : mhLength (pbuHeader order pbu :: pbuOptions order pbu) =
      12 + if pbu.timestamp.isSome then 128 else 112 := by
    rw [← mhLength_pbuOptions order pbu, ← pbuHeader_length order pbu]
    rfl
  rw [retransBytes, pmipMhSend, padded, length]
  rfl

theorem getElem?_middle {first second other : List UInt8} (firstLength : first.length = 6)
    (secondLength : second.length = 2) (otherLength : other.length = 2) (rest : List UInt8)
    {i : Nat}
    (outside : i ≠ 6 ∧ i ≠ 7) :
    (first ++ second ++ rest)[i]? = (first ++ other ++ rest)[i]? := by
  have eight : (first ++ second).length = 8 := by
    rw [List.length_append, firstLength, secondLength]
  have otherEight : (first ++ other).length = 8 := by
    rw [List.length_append, firstLength, otherLength]
  by_cases late : 8 ≤ i
  · rw [List.getElem?_append_right (by omega), List.getElem?_append_right (by omega), eight,
      otherEight]
  · rw [List.getElem?_append_left (by omega), List.getElem?_append_left (by omega),
      List.getElem?_append_left (by omega), List.getElem?_append_left (by omega)]

theorem retransBytes_seqno (order : ByteOrder) (pbu : Pbu) (seqno : UInt16) {i : Nat}
    (notSeqno : i ≠ 6 ∧ i ≠ 7) :
    (retransBytes order { pbu with seqno := seqno })[i]? = (retransBytes order pbu)[i]? := by
  have split : ∀ pbu : Pbu, retransBytes order pbu =
      ((mhCreate 5).set 1 (UInt8.ofNat ((12 + if pbu.timestamp.isSome then 128 else 112) / 8) - 1) ++
        order.store16 (order.net16 pbu.seqno)) ++
      (order.store16 pbu.flags ++ order.store16 (order.net16 pbu.lifetime) ++
        (pbuOptions order pbu).flatten) := by
    intro pbu
    rw [retransBytes_eq]
    simp [pbuHeader, mhCreate]
  rw [split, split]
  exact getElem?_middle (by simp [mhCreate]) (by simp) (by simp) _ notSeqno

/-- Every header and all options with an alignment are padded correctly, once and
for all; and all retransmissions of an update are the update with their own
sequence numbers. -/
theorem mh_try_pad_correct (order : ByteOrder) (header : List UInt8)
    {options : List (List UInt8)} (some : options ≠ [])
    (known : ∀ option ∈ options, optType option ∈ alignedTypes) :
    (∃ padded, mhTryPad (header :: options) = header :: padded ∧
        PaddedAs header.length options padded) ∧
      mhTryPad (mhTryPad (header :: options)) = mhTryPad (header :: options) ∧
      ∀ (pbu : Pbu) (seqnos : List UInt16),
        retransmissions order (mhSendPbu order pbu).2 seqnos =
            seqnos.map (fun seqno => (mhSendPbu order { pbu with seqno := seqno }).1) ∧
          ∀ message ∈ retransmissions order (mhSendPbu order pbu).2 seqnos,
            message.length = (mhSendPbu order pbu).1.length ∧
              ∀ i, i ≠ 6 ∧ i ≠ 7 → message[i]? = (mhSendPbu order pbu).1[i]? := by
  refine ⟨⟨_, mhTryPad_cons some header, padOptions_paddedAs known _ _⟩,
    mhTryPad_again header some known, ?_⟩
  intro pbu seqnos
  have sent : ∀ pbu, (mhSendPbu order pbu).1 = retransBytes order pbu := pbuBytes_eq order
  obtain ⟨hdrlen, kept⟩ : ∃ hdrlen, (mhSendPbu order pbu).2 =
      setHdrlen hdrlen (pbuVec order pbu) := ⟨_, rfl⟩
  rw [kept, retransmissions_eq, sent]
  refine ⟨List.map_congr_left fun seqno _ => (sent _).symm, ?_⟩
  intro message member
  obtain ⟨seqno, _, rfl⟩ := List.mem_map.mp member
  refine ⟨?_, fun i notSeqno => retransBytes_seqno order pbu seqno notSeqno⟩
  rw [retransBytes_length, retransBytes_length]

/-- A handoff indicator between two options with alignments, as in an update. -/
theorem mh_try_pad_correct_header :
    let options := [mhCreateOptHomeNetPrefix in6addrAny, mhCreateOptHandoffIndicator 3,
      mhCreateOptMobileNodeLinkLayerIdentifier (Octets.zero 8)]
    ∃ padded, mhTryPad (mhCreate 5 :: options) = mhCreate 5 :: padded ∧
      PaddedAs 6 options padded := by
  refine (mh_try_pad_correct .little (mhCreate 5) (List.cons_ne_nil _ _) ?_).1
  simp [alignedTypes]

end OaiPmip.Msgs
