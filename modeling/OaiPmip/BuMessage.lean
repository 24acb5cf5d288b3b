import OaiPmip.Hmac

/-!
# Binding updates from the mobile to the correspondent node: mn.c, mh.c and cn.c

`mn_send_bu_msg` puts the nonce indices of return routability into an update and
has it signed with the key of its entry.  The correspondent node parses the
message, makes the key from the indices and verifies the authenticator, which
covers the message with its checksum cleared.
-/

set_option autoImplicit false

namespace OaiPmip.Mh

open OaiPmip.Ha OaiPmip.Msgs OaiPmip.Wire

/-- What `mn_send_bu_msg` reads of a `struct bulentry` for a correspondent node. -/
structure Bulentry where
  seq : UInt16
  flags : UInt16
  lifetime : Timespec
  useAltCoa : Bool
  hoa : In6Addr
  coa : In6Addr
  peerAddr : In6Addr
  hoNi : UInt16
  coNi : UInt16
  kbm : Octets 20

def Bulentry.units (bule : Bulentry) : UInt16 := UInt16.ofInt (bule.lifetime.tvSec / 4)

def Bulentry.fields (bule : Bulentry) : Octets 6 :=
  ⟨ByteOrder.little.store16 (ByteOrder.little.net16 bule.seq) ++
    ByteOrder.little.store16 bule.flags ++
    ByteOrder.little.store16 (ByteOrder.little.net16 bule.units), rfl⟩

def Bulentry.options (bule : Bulentry) : List MhOption :=
  (if bule.useAltCoa then [.altcoa bule.coa] else []) ++ [.nonceIndex bule.hoNi bule.coNi]

/-- The bytes of `mn_send_bu_msg` for an entry without the home flag. -/
def mnSendBuMsg (hmac : Hmac) (bule : Bulentry) : List UInt8 :=
  mhSend hmac bule.coa bule.peerAddr bule.kbm (updateVec .little bule.fields bule.options)

section Found
variable {fixed : List UInt8} {front back : List (List UInt8)} {option : List UInt8} {type : Nat}

theorem mhOpt_found
    (whole : ∀ other ∈ front ++ option :: back, Whole other)
    (isType : optType option = type) (isRecorded : Recorded type)
    (others : ∀ other ∈ front, optType other ≠ type) (present : fixed ≠ []) :
    mhOpt (recordedOptions (memory (fixed ++ (front ++ option :: back).flatten))
      (fixed ++ (front ++ option :: back).flatten).length fixed.length) type =
        some (fixed.length + front.flatten.length) := by
  have holds := memory_options fixed (front ++ option :: back)
  have offsets := @offsets_message fixed _ whole
  generalize memory (fixed ++ (front ++ option :: back).flatten) = mh at *
  rw [mhOpt_recorded (List.length_pos_of_ne_nil present) isRecorded, offsets, ofType,
    positions_append, List.filter_append]
  rw [List.flatten_append, holds_append] at holds
  have types := map_typeAt_positions
    (fun other member => whole other (List.mem_append_left _ member)) holds.1
  have none :
      (positions fixed.length front).filter (fun i => decide (typeAt mh i = type)) = [] := by
    apply List.filter_eq_nil_iff.mpr
    intro i member same
    have isOther : typeAt mh i ∈ front.map optType := by
      rw [← types]
      exact List.mem_map_of_mem member
    obtain ⟨other, isFront, equal⟩ := List.mem_map.mp isOther
    exact others other isFront (equal.trans (of_decide_eq_true same))
  rw [List.flatten_cons, holds_append] at holds
  have here : typeAt mh (fixed.length + front.flatten.length) = type :=
    ((whole option (by simp)).typeAt holds.2.1).trans isType
  rw [none, positions, List.filter_cons, here, decide_eq_true rfl]
  rfl

theorem mhOpt_absent {options : List (List UInt8)} (whole : ∀ other ∈ options, Whole other)
    (isRecorded : Recorded type) (others : ∀ other ∈ options, optType other ≠ type)
    (present : fixed ≠ []) :
    mhOpt (recordedOptions (memory (fixed ++ options.flatten))
      (fixed ++ options.flatten).length fixed.length) type = none := by
  have types := map_typeAt_positions whole (memory_options fixed options)
  rw [mhOpt_recorded (List.length_pos_of_ne_nil present) isRecorded, offsets_message whole, ofType]
  have none : (positions fixed.length options).filter
      (fun i => decide (typeAt (memory (fixed ++ options.flatten)) i = type)) = [] := by
    apply List.filter_eq_nil_iff.mpr
    intro i member same
    have isOther : typeAt (memory (fixed ++ options.flatten)) i ∈ options.map optType := by
      rw [← types]
      exact List.mem_map_of_mem member
    obtain ⟨other, isOption, equal⟩ := List.mem_map.mp isOther
    exact others other isOption (equal.trans (of_decide_eq_true same))
  rw [none]
  rfl

theorem holds_found : Holds (memory (fixed ++ (front ++ option :: back).flatten))
    (fixed.length + front.flatten.length) option := by
  have holds := memory_options fixed (front ++ option :: back)
  generalize memory (fixed ++ (front ++ option :: back).flatten) = mh at *
  rw [List.flatten_append, holds_append, List.flatten_cons, holds_append] at holds
  exact holds.2.1

end Found

section Message
variable (bule : Bulentry)

def nonceOption : List UInt8 := mhCreateOptNonceIndex .little bule.hoNi bule.coNi

def laidOptions : List (List UInt8) :=
  if bule.useAltCoa then
    [createOptPad 2, mhCreateOptAltcoa bule.coa, nonceOption bule, createOptPad 4]
  else [nonceOption bule]

def fixedPart (hdrlen first second : UInt8) : List UInt8 :=
  59 :: hdrlen :: 5 :: 0 :: first :: second :: bule.fields.bytes

theorem laidOptions_padded : mhTryPad (updateVec .little bule.fields bule.options) =
    (Msgs.mhCreate 5 ++ bule.fields.bytes) :: (laidOptions bule ++ [mhCreateOptAuthData]) := by
  have header : (Msgs.mhCreate 5 ++ bule.fields.bytes).length = 12 := by
    rw [List.length_append, bule.fields.size]
    rfl
  have altcoa : (mhCreateOptAltcoa bule.coa).length = 18 := by
    simp [mhCreateOptAltcoa, bule.coa.size]
  have nonces : (nonceOption bule).length = 6 := rfl
  have rules : padRule (mhCreateOptAltcoa bule.coa) = some (.ofFin (6 : Fin 8)) ∧
      padRule (nonceOption bule) = some (.ofFin (0 : Fin 2)) ∧
      padRule mhCreateOptAuthData = some (.ofFin (2 : Fin 8)) := ⟨rfl, rfl, rfl⟩
  rw [mhTryPad_update, header]
  simp only [Bulentry.options, laidOptions]
  cases bule.useAltCoa with
  | true =>
      simp only [if_true, List.map_cons, List.map_nil, MhOption.bytes,
        List.cons_append, List.nil_append]
      change _ :: Padding.padWith List.length padRule createOptPad 12 0
        [mhCreateOptAltcoa bule.coa, nonceOption bule, mhCreateOptAuthData] = _
      simp only [Padding.padWith, rules, altcoa, nonces]
      rfl
  | false =>
      change _ :: Padding.padWith List.length padRule createOptPad 12 0
        [nonceOption bule, mhCreateOptAuthData] = _
      simp only [Padding.padWith, rules, nonces]
      rfl

variable {bule} in
theorem laidOptions_alt (alt : bule.useAltCoa = true) : laidOptions bule =
    [createOptPad 2, mhCreateOptAltcoa bule.coa, nonceOption bule, createOptPad 4] := by
  rw [laidOptions, alt, if_pos rfl]

variable {bule} in
theorem laidOptions_plain (plain : bule.useAltCoa = false) :
    laidOptions bule = [nonceOption bule] := by
  rw [laidOptions, plain, if_neg Bool.false_ne_true]

theorem laidOptions_types : (laidOptions bule).map optType =
    if bule.useAltCoa then [1, 3, 4, 1] else [4] := by
  rw [laidOptions]
  split <;> rfl

theorem laidOptions_acceptable (digest : List UInt8) (size : digest.length = 12) :
    Acceptable (laidOptions bule ++ [5 :: 12 :: digest]) := by
  have types := laidOptions_types bule
  have each : ∀ option ∈ laidOptions bule, Whole option := by
    intro option member
    rw [laidOptions] at member
    split at member
    · simp only [List.mem_cons, List.not_mem_nil, or_false] at member
      rcases member with rfl | rfl | rfl | rfl
      · exact whole_createOptPad (by decide) (by decide)
      · exact .option 3 16 bule.coa.bytes (by decide) bule.coa.size rfl
      · exact .option 4 4 _ (by decide) rfl rfl
      · exact whole_createOptPad (by decide) (by decide)
    · rw [List.mem_singleton.mp member]
      exact .option 4 4 _ (by decide) rfl rfl
  have listed : ∀ option ∈ laidOptions bule, optType option ≤ 6 ∧ optType option ≠ 5 := by
    intro option member
    have type : optType option ∈ (laidOptions bule).map optType := List.mem_map_of_mem member
    rw [types] at type
    generalize optType option = t at type
    split at type
    · simp only [List.mem_cons, List.not_mem_nil, or_false] at type
      omega
    · rw [List.mem_singleton.mp type]
      decide
  constructor
  · intro option member
    rcases List.mem_append.mp member with earlier | last
    · exact each option earlier
    · rw [List.mem_singleton.mp last]
      exact .option 5 12 digest (by decide) size rfl
  · intro option member
    rcases List.mem_append.mp member with earlier | last
    · exact (listed option earlier).1
    · rw [List.mem_singleton.mp last]
      exact Nat.le_of_ble_eq_true rfl
  · rw [List.map_append, types]
    cases bule.useAltCoa with
    | true =>
        change List.Nodup [3, 4, 5]
        decide
    | false =>
        change List.Nodup [4, 5]
        decide
  · intro option member
    rw [List.dropLast_concat] at member
    exact (listed option member).2

theorem mnSendBuMsg_parts (hmac : Hmac) : ∃ hdrlen digest, digest.length = 12 ∧
    digest = calculateAuthData hmac
      [fixedPart bule hdrlen 0 0 ++ (laidOptions bule).flatten ++ [5, 12]]
      bule.coa bule.peerAddr bule.kbm ∧
    mnSendBuMsg hmac bule =
      fixedPart bule hdrlen 0 0 ++ (laidOptions bule ++ [5 :: 12 :: digest]).flatten := by
  refine ⟨UInt8.ofNat (mhLength (mhTryPad (updateVec .little bule.fields bule.options)) / 8) - 1,
    _, calculateAuthData_length .., rfl, ?_⟩
  rw [mnSendBuMsg, mhSend]
  generalize UInt8.ofNat (mhLength (mhTryPad (updateVec .little bule.fields bule.options)) / 8) - 1
    = hdrlen
  have fixed :
      (Msgs.mhCreate 5 ++ bule.fields.bytes).set 1 hdrlen = fixedPart bule hdrlen 0 0 := rfl
  simp only [laidOptions_padded, setHdrlen, fixed]
  rw [← List.cons_append, addAuthData_concat]
  simp [calculateAuthData]

end Message

/-! ## At the correspondent node -/

section Received
variable (bule : Bulentry)

def arriving (sent : List UInt8) (first second : UInt8) : List UInt8 :=
  (sent.set 4 first).set 5 second

def Bulentry.remoteCoa : Option In6Addr := if bule.coa = bule.hoa then none else some bule.coa

def Bulentry.received (first second : UInt8) (hmac : Hmac) : Cn.Bu :=
  ⟨arriving (mnSendBuMsg hmac bule) first second, bule.hoa, bule.peerAddr⟩

def Bulentry.request : Cn.Request where
  isHome := false
  seqno := bule.seq
  nonInd := some (bule.hoNi, bule.coNi)
  hasAuth := true
  bindCoa := bule.coa
  lifetime := if bule.coa = bule.hoa then ⟨0, 0⟩ else ⟨4 * bule.units.toNat, 0⟩

variable {bule}

theorem arriving_parts {hmac : Hmac} {hdrlen : UInt8} {options : List (List UInt8)}
    (parts : mnSendBuMsg hmac bule = fixedPart bule hdrlen 0 0 ++ options.flatten)
    (first second : UInt8) : arriving (mnSendBuMsg hmac bule) first second =
      fixedPart bule hdrlen first second ++ options.flatten := by
  rw [parts]
  rfl

theorem load16_little (mh : Buffer) (i : Nat) :
    Msgs.load16 mh i = ByteOrder.little.load16 (mh i) (mh (i + 1)) := rfl

theorem ntohs_little (x : UInt16) : Msgs.ntohs x = ByteOrder.little.net16 x := rfl

theorem ntohs_load16 {mh : Buffer} {i : Nat} (x : UInt16)
    (holds : Holds mh i (ByteOrder.little.store16 (ByteOrder.little.net16 x))) :
    Msgs.ntohs (Msgs.load16 mh i) = x := by
  rw [ntohs_little, load16_little, load16_store16 .little _ holds, net16_net16]

section Options
variable (fixed : List UInt8) (present : fixed ≠ []) {digest : List UInt8}
include present

theorem nonces_found (size : digest.length = 12) :
    let msg := fixed ++ (laidOptions bule ++ [5 :: 12 :: digest]).flatten
    ∃ i, mhOpt (recordedOptions (memory msg) msg.length fixed.length) 4 = some i ∧
      Holds (memory msg) i (nonceOption bule) := by
  have whole := (laidOptions_acceptable bule digest size).whole
  cases alt : bule.useAltCoa with
  | true =>
      rw [laidOptions_alt alt] at whole ⊢
      exact ⟨_, @mhOpt_found fixed [createOptPad 2, mhCreateOptAltcoa bule.coa]
        [createOptPad 4, 5 :: 12 :: digest] (nonceOption bule) 4 whole rfl (by decide)
        (by simp [createOptPad, mhCreateOptAltcoa, optType]) present,
        @holds_found fixed [createOptPad 2, mhCreateOptAltcoa bule.coa]
          [createOptPad 4, 5 :: 12 :: digest] (nonceOption bule)⟩
  | false =>
      rw [laidOptions_plain alt] at whole ⊢
      exact ⟨_, @mhOpt_found fixed [] [5 :: 12 :: digest] (nonceOption bule) 4 whole rfl
        (by decide) (fun _ member => absurd member List.not_mem_nil) present,
        @holds_found fixed [] [5 :: 12 :: digest] (nonceOption bule)⟩

theorem altcoa_found (size : digest.length = 12) :
    let msg := fixed ++ (laidOptions bule ++ [5 :: 12 :: digest]).flatten
    (mhOpt (recordedOptions (memory msg) msg.length fixed.length) 3).map
      (fun i => copy 16 (memory msg) (i + 2)) = if bule.useAltCoa then some bule.coa else none := by
  have whole := (laidOptions_acceptable bule digest size).whole
  cases alt : bule.useAltCoa with
  | true =>
      rw [laidOptions_alt alt] at whole ⊢
      have found := @mhOpt_found fixed [createOptPad 2]
        [nonceOption bule, createOptPad 4, 5 :: 12 :: digest] (mhCreateOptAltcoa bule.coa) 3 whole
        rfl (by decide) (by simp [createOptPad, optType]) present
      have holds := @holds_found fixed [createOptPad 2]
        [nonceOption bule, createOptPad 4, 5 :: 12 :: digest] (mhCreateOptAltcoa bule.coa)
      have bytes := holds.2.2.read
      rw [bule.coa.size] at bytes
      exact (congrArg (Option.map _) found).trans (congrArg some (Octets.ext_bytes bytes))
  | false =>
      rw [laidOptions_plain alt] at whole ⊢
      have absent := @mhOpt_absent fixed 3 [nonceOption bule, 5 :: 12 :: digest] whole (by decide)
        (by simp [nonceOption, mhCreateOptNonceIndex, optType]) present
      exact congrArg (Option.map _) absent

theorem authData_found (size : digest.length = 12) :
    let msg := fixed ++ (laidOptions bule ++ [5 :: 12 :: digest]).flatten
    mhOpt (recordedOptions (memory msg) msg.length fixed.length) 5 =
      some (fixed.length + (laidOptions bule).flatten.length) := by
  refine mhOpt_found (laidOptions_acceptable bule digest size).whole rfl (by decide) ?_ present
  intro option member
  have last := (laidOptions_acceptable bule digest size).last option
  rw [List.dropLast_concat] at last
  exact last member

end Options

theorem fields_read (hdrlen first second : UInt8) (rest : List UInt8) :
    let mh := memory (fixedPart bule hdrlen first second ++ rest)
    Msgs.ntohs (Msgs.load16 mh 6) = bule.seq ∧ mh 8 = bule.flags.toUInt8 ∧
      Msgs.ntohs (Msgs.load16 mh 10) = bule.units := by
  refine ⟨?_, rfl, ?_⟩
  · exact ntohs_load16 bule.seq ⟨rfl, rfl, trivial⟩
  · exact ntohs_load16 bule.units ⟨rfl, rfl, trivial⟩

theorem mhBuParse_received {hmac : Hmac} {first second : UInt8} {dupBeyond : Nat → Bool}
    {bceExists : Cn.BcKey → Bool} (notHome : bule.flags.toUInt8 &&& 0x40 = 0)
    (hoaRoutable : Cn.in6IsAddrRoutableUnicast bule.hoa = true)
    (coaRoutable : Cn.in6IsAddrRoutableUnicast bule.coa = true)
    (noCircle : bule.coa ≠ bule.hoa → bceExists ⟨bule.peerAddr, bule.coa⟩ = false) :
    Cn.mhBuParse dupBeyond bceExists (bule.received first second hmac) bule.remoteCoa =
      some bule.request := by
  obtain ⟨hdrlen, digest, size, isDigest, parts⟩ := mnSendBuMsg_parts bule hmac
  have acceptable := laidOptions_acceptable bule digest size
  have present : fixedPart bule hdrlen first second ≠ [] := List.cons_ne_nil _ _
  have read := mhOptParseRead_acceptable acceptable present
  have message := arriving_parts parts first second
  have parsed := mhOptParseRead_refines (List.length_pos_of_ne_nil present) read dupBeyond
  obtain ⟨i, nonces, atNonces⟩ := @nonces_found bule _ present digest size
  have altcoa := @altcoa_found bule _ present digest size
  have authData := @authData_found bule _ present digest size
  obtain ⟨seq, flags, units⟩ := @fields_read bule hdrlen first second
    (laidOptions bule ++ [5 :: 12 :: digest]).flatten
  have long : 12 ≤ (fixedPart bule hdrlen first second ++
      (laidOptions bule ++ [5 :: 12 :: digest]).flatten).length := by
    rw [List.length_append]
    exact Nat.le_add_right 12 _
  have twelve : (fixedPart bule hdrlen first second).length = 12 := rfl
  rw [← message] at parsed nonces atNonces altcoa authData seq flags units long
  rw [twelve] at parsed nonces altcoa authData
  rw [Bulentry.received]
  generalize arriving (mnSendBuMsg hmac bule) first second = msg at *
  have home : Msgs.ntohs (Msgs.load16 (memory msg) (i + 2)) = bule.hoNi :=
    ntohs_load16 bule.hoNi ⟨atNonces.2.2.1, atNonces.2.2.2.1, trivial⟩
  have careOf : Msgs.ntohs (Msgs.load16 (memory msg) (i + 4)) = bule.coNi :=
    ntohs_load16 bule.coNi ⟨atNonces.2.2.2.2.1, atNonces.2.2.2.2.2.1, trivial⟩
  have buffer : (⟨msg, bule.hoa, bule.peerAddr⟩ : Cn.Bu).buffer = memory msg := rfl
  have notShort : ¬msg.length < 12 := Nat.not_lt.mpr long
  simp only [Cn.mhBuParse, buffer, if_neg notShort, parsed, hoaRoutable, if_true, nonces,
    Option.map_some, home, careOf, authData, altcoa, seq, flags, units, notHome,
    Option.isSome_some]
  by_cases atHome : bule.coa = bule.hoa
  · have remote : bule.remoteCoa = none := if_pos atHome
    rw [remote, Bulentry.request, if_pos atHome]
    cases bule.useAltCoa with
    | true => simp [hoaRoutable, atHome]
    | false => simp [atHome]
  · have remote : bule.remoteCoa = some bule.coa := if_neg atHome
    rw [remote, Bulentry.request, if_neg atHome]
    cases bule.useAltCoa with
    | true => simp [coaRoutable, atHome, noCircle atHome]
    | false => simp [coaRoutable, atHome, noCircle atHome]

end Received

section Check
variable (keyCn : Octets 20) (randBytes : Nat → List UInt8)

def kbmOf (home : Nat) (careOf : Option Nat) (hoa coa : In6Addr) : Octets 20 :=
  let c := Crypto.hashes keyCn randBytes
  ⟨c.rrMnCalcKbm (c.buildKgenToken hoa home 0) (careOf.map fun n => c.buildKgenToken coa n 1), by
    cases careOf with
    | none => exact Crypto.sha1_size _
    | some n => exact Crypto.sha1_size _⟩

/-- `mh_verify_auth_data` of `cn_bu_check`, with the hashes of crypto.c. -/
def authentic (dupBeyond : Nat → Bool) : Cn.Authentic := fun home careOf k bindCoa bu =>
  match mhOptParse dupBeyond (memory bu) bu.length 12 with
  | none => false
  | some mhOpts =>
      match mhOpt mhOpts 5 with
      | none => false
      | some bauth => mhVerifyAuthData Crypto.hmacSha1 (memory bu) bu.length bauth bindCoa k.ourAddr
          (kbmOf keyCn randBytes home careOf k.peerAddr bindCoa)

variable {keyCn randBytes} {bule : Bulentry}

theorem authentic_received {home : Nat} {careOf : Option Nat} (first second : UInt8)
    (dupBeyond : Nat → Bool)
    (isKey : bule.kbm = kbmOf keyCn randBytes home careOf bule.hoa bule.coa) :
    authentic keyCn randBytes dupBeyond home careOf
      (bule.received first second Crypto.hmacSha1).key bule.coa
        (Cn.clearCksum (bule.received first second Crypto.hmacSha1).mh) = true := by
  obtain ⟨hdrlen, digest, size, isDigest, parts⟩ := mnSendBuMsg_parts bule Crypto.hmacSha1
  have acceptable := laidOptions_acceptable bule digest size
  have present : fixedPart bule hdrlen 0 0 ≠ [] := List.cons_ne_nil _ _
  have read := mhOptParseRead_acceptable acceptable present
  have parsed := mhOptParseRead_refines (List.length_pos_of_ne_nil present) read dupBeyond
  have authData := @authData_found bule _ present digest size
  have cleared : Cn.clearCksum (bule.received first second Crypto.hmacSha1).mh =
      fixedPart bule hdrlen 0 0 ++ (laidOptions bule ++ [5 :: 12 :: digest]).flatten := by
    rw [Bulentry.received, arriving_parts parts]
    rfl
  have behind : fixedPart bule hdrlen 0 0 ++ (laidOptions bule ++ [5 :: 12 :: digest]).flatten =
      (fixedPart bule hdrlen 0 0 ++ (laidOptions bule).flatten ++ [5, 12]) ++ digest := by simp
  have right := @verified digest Crypto.hmacSha1 bule.coa bule.peerAddr bule.kbm
    (fixedPart bule hdrlen 0 0 ++ (laidOptions bule).flatten) size isDigest
  have twelve : (fixedPart bule hdrlen 0 0).length = 12 := rfl
  rw [@List.length_append _ (fixedPart bule hdrlen 0 0), ← behind, isKey] at right
  rw [twelve] at parsed authData right
  rw [cleared, authentic, parsed]
  simp only [authData]
  exact right

end Check

/-! ## Return routability -/

/-- The entry has the indices of tokens that were handed out, and the key that
`rr_mn_calc_Kbm` makes of the tokens: of both to register the care-of address, and
of the home token alone otherwise. -/
structure Bulentry.Keyed (bule : Bulentry) (order : ByteOrder) (old : Octets 64)
    (home : Cn.Issued) (careOf : Option Cn.Issued) : Prop where
  isHome : home.bit = 0
  isCareOf : ∀ token ∈ careOf, token.bit = 1
  homeIndex : bule.hoa = home.addr ∧ bule.hoNi = home.index
  careOfIndex : ∀ token ∈ careOf, bule.coa = token.addr ∧ bule.coNi = token.index
  registers : tsisset bule.request.lifetime = careOf.isSome
  key : bule.kbm.bytes =
    Crypto.rrMnCalcKbm order old home.token (careOf.map Cn.Issued.token)

/-- An update for a correspondent node between routable addresses, the care-of
address being nobody's home address there. -/
structure Bulentry.Sendable (bule : Bulentry) (s : Cn.State) : Prop where
  notHome : bule.flags.toUInt8 &&& 0x40 = 0
  hoaRoutable : Cn.in6IsAddrRoutableUnicast bule.hoa = true
  coaRoutable : Cn.in6IsAddrRoutableUnicast bule.coa = true
  noCircle : bule.coa ≠ bule.hoa → s.bceExists ⟨bule.peerAddr, bule.coa⟩ = false

def verdict (s : Cn.State) (now : Timespec) (home : Cn.Issued) (careOf : Option Cn.Issued) :
    Cn.BasStatus :=
  match home.valid s now, careOf.map fun token => token.valid s now with
  | true, some false => .coaNiExpired
  | true, _ => .accepted
  | false, some false => .niExpired
  | false, _ => .homeNiExpired

section Routability
variable {keyCn : Octets 20} {randBytes : Nat → List UInt8} {bule : Bulentry} {s : Cn.State}
  {home : Cn.Issued} {careOf : Option Cn.Issued} {order : ByteOrder} {old : Octets 64}

theorem Bulentry.Keyed.kbm (keyed : bule.Keyed order old home careOf)
    (keptHome : home.Kept (Crypto.hashes keyCn randBytes) s)
    (keptCareOf : ∀ token ∈ careOf, token.Kept (Crypto.hashes keyCn randBytes) s) :
    bule.kbm = kbmOf keyCn randBytes home.nonce (careOf.map Cn.Issued.nonce) bule.hoa bule.coa := by
  apply Octets.ext_bytes
  rw [keyed.key, Crypto.rrMnCalcKbm_eq order old keyCn randBytes, keptHome.token, keyed.isHome,
    keyed.homeIndex.1]
  cases careOf with
  | none => rfl
  | some token =>
      rw [Option.map_some, (keptCareOf token rfl).token, keyed.isCareOf token rfl,
        (keyed.careOfIndex token rfl).1]
      rfl

theorem cnBuCheck_keyed {dupBeyond : Nat → Bool} {now : Timespec}
    (keyed : bule.Keyed order old home careOf)
    (keptHome : home.Kept (Crypto.hashes keyCn randBytes) s)
    (keptCareOf : ∀ token ∈ careOf, token.Kept (Crypto.hashes keyCn randBytes) s)
    (first second : UInt8) :
    Cn.cnBuCheck (authentic keyCn randBytes dupBeyond) s now
      (bule.received first second Crypto.hmacSha1) bule.request =
        some (verdict s now home careOf) := by
  have isKey := keyed.kbm keptHome keptCareOf
  obtain ⟨homeFound, homeMissing⟩ := keptHome.validates now
  have right := authentic_received first second dupBeyond isKey
  have registers := keyed.registers
  rw [← keyed.homeIndex.2] at homeFound homeMissing
  simp only [Bulentry.request] at registers
  simp only [Cn.cnBuCheck, Bulentry.request, Cn.kbmNonces, Cn.rrCnCalcKbm, registers, verdict,
    Bool.false_eq_true, if_false]
  cases careOf with
  | none =>
      simp only [Option.isSome_none, Bool.false_eq_true, if_false, Option.map_none]
      cases valid : home.valid s now with
      | true =>
          obtain ⟨n, found, nonce⟩ := homeFound valid
          rw [Option.map_none, ← nonce] at right
          simp only [found, right, Bool.and_self, if_true]
      | false => simp only [homeMissing valid]
  | some token =>
      obtain ⟨careOfFound, careOfMissing⟩ := (keptCareOf token rfl).validates now
      rw [← (keyed.careOfIndex token rfl).2] at careOfFound careOfMissing
      simp only [Option.isSome_some, if_true, Option.map_some]
      cases valid : home.valid s now with
      | true =>
          obtain ⟨n, found, nonce⟩ := homeFound valid
          cases careOfValid : token.valid s now with
          | true =>
              obtain ⟨n', found', nonce'⟩ := careOfFound careOfValid
              rw [Option.map_some, ← nonce, ← nonce'] at right
              simp only [found, found', right, Bool.and_self, if_true]
          | false => simp only [found, careOfMissing careOfValid]
      | false =>
          cases careOfValid : token.valid s now with
          | true =>
              obtain ⟨n', found', -⟩ := careOfFound careOfValid
              simp only [homeMissing valid, found']
          | false => simp only [homeMissing valid, careOfMissing careOfValid]

end Routability

/-- In any run of the correspondent node, an update made of tokens that it handed
out is read as it was meant and passes the check as long as the nonces of the
tokens are valid; otherwise the answer names the nonces that are not. -/
theorem update_answered (order : ByteOrder) (old : Octets 64) (keyCn : Octets 20)
    (randBytes : Nat → List UInt8) (conf : Cn.CnConf) (inputs : List Cn.KeyInput)
    (epoch : ∀ input ∈ inputs, 0 < input.now.tvSec) (w : Cn.KeyNode)
    (finished : Runs.run (Cn.KeyNode.step (Crypto.hashes keyCn randBytes) conf
      (authentic keyCn randBytes conf.dupBeyond)) Cn.KeyNode.init inputs = .ok w)
    (few : w.node.cn.regenerations < 65000) (home : Cn.Issued) (careOf : Option Cn.Issued)
    (homeIssued : home ∈ w.issued) (careOfIssued : ∀ token ∈ careOf, token ∈ w.issued)
    (bule : Bulentry) (keyed : bule.Keyed order old home careOf)
    (sendable : bule.Sendable w.node.cn) (first second : UInt8) (now : Timespec) :
    let m := bule.received first second Crypto.hmacSha1
    Cn.mhBuParse conf.dupBeyond w.node.cn.bceExists m bule.remoteCoa = some bule.request ∧
      Cn.cnBuCheck (authentic keyCn randBytes conf.dupBeyond) w.node.cn now m bule.request =
        some (verdict w.node.cn now home careOf) := by
  have ok := Cn.KeyNode.keysOk epoch finished few
  refine ⟨?_, ?_⟩
  · exact mhBuParse_received sendable.notHome sendable.hoaRoutable sendable.coaRoutable
      sendable.noCircle
  · exact cnBuCheck_keyed keyed (ok.kept home homeIssued)
      (fun token member => ok.kept token (careOfIssued token member)) first second

def sampleAddr (last : UInt8) : In6Addr :=
  ⟨[0x20, 0x01] ++ List.replicate 13 0 ++ [last], rfl⟩

def sampleTokens : List Cn.KeyInput :=
  [.token ⟨100, 0⟩ (sampleAddr 1) 0, .token ⟨131, 0⟩ (sampleAddr 2) 1]

def sampleBytes (n : Nat) : List UInt8 := List.replicate 8 (UInt8.ofNat n)

def sampleBule : Bulentry where
  seq := 7
  flags := 0x80
  lifetime := ⟨420, 0⟩
  useAltCoa := false
  hoa := sampleAddr 1
  coa := sampleAddr 2
  peerAddr := sampleAddr 3
  hoNi := 1
  coNi := 2
  kbm := kbmOf (Octets.zero 20) sampleBytes 0 (some 1) (sampleAddr 1) (sampleAddr 2)

theorem sampleBule_keyed (homeUntil careOfUntil : Timespec) (order : ByteOrder) (old : Octets 64) :
    let c := Crypto.hashes (Octets.zero 20) sampleBytes
    sampleBule.Keyed order old
      ⟨sampleAddr 1, 0, 1, c.buildKgenToken (sampleAddr 1) 0 0, 0, homeUntil⟩
      (some ⟨sampleAddr 2, 1, 2, c.buildKgenToken (sampleAddr 2) 1 1, 1, careOfUntil⟩) where
  isHome := rfl
  isCareOf := fun _ member => Option.some.inj member ▸ rfl
  homeIndex := ⟨rfl, rfl⟩
  careOfIndex := fun _ member => Option.some.inj member ▸ ⟨rfl, rfl⟩
  registers := rfl
  key := by
    rw [Crypto.rrMnCalcKbm_eq order old (Octets.zero 20) sampleBytes]
    rfl

/-- A registration is accepted until the home nonce has passed, and refused then. -/
theorem update_answered_in_time :
    let conf : Cn.CnConf := ⟨true, [], fun _ => false⟩
    let check := authentic (Octets.zero 20) sampleBytes conf.dupBeyond
    let m := sampleBule.received 0x12 0x34 Crypto.hmacSha1
    ∃ w, Runs.run (Cn.KeyNode.step (Crypto.hashes (Octets.zero 20) sampleBytes) conf check)
        Cn.KeyNode.init sampleTokens = .ok w ∧
      Cn.cnBuCheck check w.node.cn ⟨340, 0⟩ m sampleBule.request = some .accepted ∧
      Cn.cnBuCheck check w.node.cn ⟨341, 0⟩ m sampleBule.request = some .homeNiExpired := by
  intro conf check m
  refine ⟨_, rfl, ?_, ?_⟩
  · exact (update_answered .little (Octets.zero 64) (Octets.zero 20) sampleBytes conf sampleTokens
      (by decide) _ rfl (by decide) _ _ (List.mem_cons_of_mem _ List.mem_cons_self)
      (fun _ member => Option.some.inj member ▸ List.mem_cons_self) sampleBule
      (sampleBule_keyed _ _ _ _) ⟨by decide, by decide, by decide, by decide⟩ 0x12 0x34
      ⟨340, 0⟩).2
  · exact (update_answered .little (Octets.zero 64) (Octets.zero 20) sampleBytes conf sampleTokens
      (by decide) _ rfl (by decide) _ _ (List.mem_cons_of_mem _ List.mem_cons_self)
      (fun _ member => Option.some.inj member ▸ List.mem_cons_self) sampleBule
      (sampleBule_keyed _ _ _ _) ⟨by decide, by decide, by decide, by decide⟩ 0x12 0x34
      ⟨341, 0⟩).2

end OaiPmip.Mh
