import OaiPmip.Lib.Wire
import OaiPmip.Msgs

/-!
# Mobility headers on the wire, pmip_msgs.c

The bytes that `mh_send_pbu` and `mh_send_pba` hand to the kernel, with both
passes of the padding, and the parsers of a receiver of the same byte order.
An `iovec` is its bytes.  The kernel fills in the checksum, bytes four and five.
-/

set_option autoImplicit false

namespace OaiPmip.Msgs

open OaiPmip.Wire

def optpad (xn y offset : Nat) : Nat := (((y : Int) - offset) % xn).toNat

/-- The tables `_pad1` to `_pad7`. -/
def createOptPad : Nat → List UInt8
  | 0 => []
  | 1 => [0]
  | pad + 2 => 1 :: UInt8.ofNat pad :: List.replicate pad 0

/-- The padding in front of an option.  A type that the switch does not know
is given that of the option before it. -/
def padBefore (type : UInt8) (pad len : Nat) : Nat :=
  match type.toNat with
  | 0x02 => optpad 2 0 len
  | 0x03 => optpad 8 6 len
  | 0x04 => optpad 2 0 len
  | 0x05 => optpad 8 2 len
  | 0x08 => 0
  | 0x16 => optpad 8 4 len
  | 0x17 => 0
  | 0x18 => 0
  | 0x19 => optpad 8 0 len
  | 0x1A => optpad 8 6 len
  | 0x1B => optpad 8 2 len
  | _ => pad

def padOptions (len pad : Nat) : List (List UInt8) → List (List UInt8)
  | [] => []
  | option :: rest =>
      let pad := padBefore (option.headD 0) pad len
      let rest := option :: padOptions (len + pad + option.length) pad rest
      if pad > 0 then createOptPad pad :: rest else rest

def mhTryPad : List (List UInt8) → List (List UInt8)
  | [] => []
  | [header] => [header, createOptPad (optpad 8 0 header.length)]
  | header :: options => header :: padOptions header.length 0 options

def mhLength (vec : List (List UInt8)) : Nat := (vec.map List.length).sum

def setHdrlen (hdrlen : UInt8) : List (List UInt8) → List (List UInt8)
  | [] => []
  | header :: options => header.set 1 hdrlen :: options

/-- The bytes of the `sendmsg` in `pmip_mh_send`. -/
def pmipMhSend (mhVec : List (List UInt8)) : List UInt8 :=
  let iov := mhTryPad mhVec
  (setHdrlen (UInt8.ofNat (mhLength iov / 8) - 1) iov).flatten

/-- What `mh_send_pbu` and `mh_send_pba` do with their vector: they pad it,
and `pmip_mh_send` pads the outcome. -/
def padAndSend (mhVec : List (List UInt8)) : List UInt8 :=
  let iov := mhTryPad mhVec
  pmipMhSend (setHdrlen (UInt8.ofNat (mhLength iov)) iov)

/-- `mh_create`: `IPPROTO_NONE`, the type and zeros. -/
def mhCreate (type : UInt8) : List UInt8 := [59, 0, type, 0, 0, 0]

def mhCreateOptMobileNodeIdentifier (mnId : Nai) : List UInt8 := 0x08 :: 64 :: 1 :: mnId.bytes

def mhCreateOptHomeNetPrefix (homeNetworkPrefix : In6Addr) : List UInt8 :=
  0x16 :: 18 :: 0 :: 128 :: homeNetworkPrefix.bytes

def mhCreateOptHandoffIndicator (handoffIndicator : UInt8) : List UInt8 :=
  [0x17, 2, 0, handoffIndicator]

def mhCreateOptAccessTechnologyType (att : UInt8) : List UInt8 := [0x18, 2, 0, att]

def mhCreateOptMobileNodeLinkLayerIdentifier (mnlli : Octets 8) : List UInt8 :=
  0x19 :: 10 :: 0 :: 0 :: mnlli.bytes

def mhCreateOptTimeStamp (order : ByteOrder) (timestamp : Ip6ts) : List UInt8 :=
  0x1B :: 8 :: (order.store32 timestamp.first ++ order.store32 timestamp.second)

/-- `struct ip6_mh_binding_update`; the flags are not converted. -/
def pbuHeader (order : ByteOrder) (pbu : Pbu) : List UInt8 :=
  mhCreate 5 ++ order.store16 (order.net16 pbu.seqno) ++ order.store16 pbu.flags ++
    order.store16 (order.net16 pbu.lifetime)

/-- `mh_vec` of an update.  The option for the time is left out when
`gettimeofday` failed. -/
def pbuVec (order : ByteOrder) (pbu : Pbu) : List (List UInt8) :=
  pbuHeader order pbu ::
    mhCreateOptMobileNodeIdentifier pbu.mnNai ::
    mhCreateOptHomeNetPrefix pbu.mnPrefix ::
    mhCreateOptHandoffIndicator 3 ::
    mhCreateOptAccessTechnologyType 4 ::
    mhCreateOptMobileNodeLinkLayerIdentifier pbu.mnId ::
    (pbu.timestamp.map (mhCreateOptTimeStamp order)).toList

/-- `struct ip6_mh_binding_ack`. -/
def pbaHeader (order : ByteOrder) (pba : Pba) : List UInt8 :=
  mhCreate 6 ++ [pba.status, pba.flags] ++ order.store16 (order.net16 pba.seqno) ++
    order.store16 (order.net16 pba.lifetime)

def pbaVec (order : ByteOrder) (pba : Pba) : List (List UInt8) :=
  [pbaHeader order pba,
    mhCreateOptMobileNodeIdentifier pba.mnNai,
    mhCreateOptHomeNetPrefix pba.mnPrefix,
    mhCreateOptMobileNodeLinkLayerIdentifier pba.mnId,
    mhCreateOptTimeStamp order pba.timestamp]

/-- The bytes of `mh_send_pbu`. -/
def pbuBytes (order : ByteOrder) (pbu : Pbu) : List UInt8 := padAndSend (pbuVec order pbu)

def retransBytes (order : ByteOrder) (pbu : Pbu) : List UInt8 := pmipMhSend (pbuVec order pbu)

/-- The bytes of `mh_send_pba`. -/
def pbaBytes (order : ByteOrder) (pba : Pba) : List UInt8 := padAndSend (pbaVec order pba)

/-- A received message is the one sent, but for the checksum. -/
structure Carries (m : Received) (bytes : List UInt8) : Prop where
  length : m.len = bytes.length
  same : ∀ i, i < bytes.length → i ≠ 4 → i ≠ 5 → bytes[i]? = some (m.mh i)

def mobilityOptionsOn (order : ByteOrder) (mh : Buffer) (mhOpts : MhOptions) : MobilityOptions :=
  { mobilityOptions mh mhOpts with
    timestamp := (mhOpt mhOpts 0x1B).map fun i =>
      ⟨order.load32 (mh (i + 2)) (mh (i + 2 + 1)) (mh (i + 2 + 2)) (mh (i + 2 + 3)),
        order.load32 (mh (i + 6)) (mh (i + 6 + 1)) (mh (i + 6 + 2)) (mh (i + 6 + 3))⟩ }

def decodePbuOn (order : ByteOrder) (dupBeyond : Nat → Bool) (m : Received) : Option PbuFields :=
  if m.len < 12 then none
  else (mhOptParse dupBeyond m.mh m.len 12).map fun mhOpts =>
    { flags := order.net16 (order.load16 (m.mh 8) (m.mh 9))
      lifetime := order.net16 (order.load16 (m.mh 10) (m.mh 11))
      seqno := order.net16 (order.load16 (m.mh 6) (m.mh 7))
      options := mobilityOptionsOn order m.mh mhOpts }

def mhPbuParseOn (order : ByteOrder) (conf : Conf) (dupBeyond : Nat → Bool) (info : MsgInfo)
    (m : Received) : MsgInfo :=
  let info := pbuAddresses info m.src m.dst m.iif
  match if m.dst = conf.lmaAddress then decodePbuOn order dupBeyond m else none with
  | none => info
  | some pbu => fillPbu info pbu

def decodePbaOn (order : ByteOrder) (dupBeyond : Nat → Bool) (m : Received) : Option PbaFields :=
  if m.len < 12 then none
  else (mhOptParse dupBeyond m.mh m.len 12).map fun mhOpts =>
    { flags := (order.net16 (m.mh 7).toUInt16).toUInt8
      lifetime := order.net16 (order.load16 (m.mh 10) (m.mh 11))
      seqno := order.net16 (order.load16 (m.mh 8) (m.mh 9))
      options := mobilityOptionsOn order m.mh mhOpts }

def mhPbaParseOn (order : ByteOrder) (dupBeyond : Nat → Bool) (info : MsgInfo) (m : Received) :
    MsgInfo :=
  let info := { info with src := m.src, dst := m.dst, iif := m.iif }
  match decodePbaOn order dupBeyond m with
  | none => info
  | some pba => fillPba info pba

theorem mhPbuParseOn_little (conf : Conf) (dupBeyond : Nat → Bool) (info : MsgInfo) (m : Received) :
    mhPbuParseOn .little conf dupBeyond info m = mhPbuParse conf dupBeyond info m := rfl

theorem mhPbaParseOn_little (dupBeyond : Nat → Bool) (info : MsgInfo) (m : Received) :
    mhPbaParseOn .little dupBeyond info m = mhPbaParse dupBeyond info m := rfl

def optType (option : List UInt8) : Nat := (option.headD 0).toNat

/-- The option types of the switch in `mh_try_pad`. -/
def alignedTypes : List Nat := [0x02, 0x03, 0x04, 0x05, 0x08, 0x16, 0x17, 0x18, 0x19, 0x1A, 0x1B]

def Aligned : Nat → List (List UInt8) → Prop
  | _, [] => True
  | len, option :: rest =>
      padBefore (option.headD 0) 0 len = 0 ∧ Aligned (len + option.length) rest

theorem createOptPad_length (pad : Nat) : (createOptPad pad).length = pad := by
  match pad with
  | 0 => rfl
  | 1 => rfl
  | pad + 2 => simp [createOptPad]

theorem padBefore_pad (pad stale len : Nat) :
    padBefore ((createOptPad pad).headD 0) stale len = stale := by
  match pad with
  | 0 => rfl
  | 1 => rfl
  | pad + 2 => rfl

theorem padBefore_settled {type : UInt8} (known : type.toNat ∈ alignedTypes) (stale pad len : Nat) :
    padBefore type stale (len + padBefore type pad len) = 0 := by
  simp only [alignedTypes, List.mem_cons, List.not_mem_nil, or_false] at known
  rcases known with is | is | is | is | is | is | is | is | is | is | is <;>
    simp only [padBefore, is, optpad] <;> omega

theorem padOptions_aligned (options : List (List UInt8))
    (known : ∀ option ∈ options, optType option ∈ alignedTypes) (len pad : Nat) :
    Aligned len (padOptions len pad options) := by
  induction options generalizing len pad with
  | nil => trivial
  | cons option rest ih =>
      have settled := padBefore_settled (known option List.mem_cons_self) 0 pad len
      have later := ih (fun other member => known other (List.mem_cons_of_mem _ member))
        (len + padBefore (option.headD 0) pad len + option.length)
        (padBefore (option.headD 0) pad len)
      simp only [padOptions]
      split
      · refine ⟨padBefore_pad _ 0 len, ?_, ?_⟩
        · rw [createOptPad_length]
          exact settled
        · rw [createOptPad_length]
          exact later
      · rename_i none
        have zero : padBefore (option.headD 0) pad len = 0 := Nat.eq_zero_of_not_pos none
        rw [zero, Nat.add_zero] at settled later
        rw [zero, Nat.add_zero]
        exact ⟨settled, later⟩

theorem padOptions_of_aligned (options : List (List UInt8)) (len : Nat)
    (aligned : Aligned len options) : padOptions len 0 options = options := by
  induction options generalizing len with
  | nil => rfl
  | cons option rest ih =>
      simp only [padOptions, aligned.1, Nat.add_zero, ih _ aligned.2]
      exact if_neg (Nat.lt_irrefl 0)

theorem padOptions_ne_nil (option : List UInt8) (rest : List (List UInt8)) (len pad : Nat) :
    padOptions len pad (option :: rest) ≠ [] := by
  simp only [padOptions]
  split
  · exact List.cons_ne_nil _ _
  · exact List.cons_ne_nil _ _

theorem mhTryPad_cons {options : List (List UInt8)} (some : options ≠ []) (header : List UInt8) :
    mhTryPad (header :: options) = header :: padOptions header.length 0 options := by
  cases options with
  | nil => exact absurd rfl some
  | cons option rest => rfl

/-- Padding a padded vector changes nothing, so that the messages of the
senders and of a retransmission are the same bytes. -/
theorem padAndSend_eq (header : List UInt8) (option : List UInt8) (rest : List (List UInt8))
    (known : ∀ other ∈ option :: rest, optType other ∈ alignedTypes) :
    padAndSend (header :: option :: rest) = pmipMhSend (header :: option :: rest) := by
  have first := mhTryPad_cons (List.cons_ne_nil option rest) header
  have again : ∀ hdrlen, mhTryPad (setHdrlen hdrlen (mhTryPad (header :: option :: rest))) =
      setHdrlen hdrlen (mhTryPad (header :: option :: rest)) := by
    intro hdrlen
    rw [first, setHdrlen, mhTryPad_cons (padOptions_ne_nil option rest _ _), List.length_set,
      padOptions_of_aligned _ _ (padOptions_aligned (option :: rest) known _ _)]
  have longAs : ∀ hdrlen, mhLength (setHdrlen hdrlen (mhTryPad (header :: option :: rest))) =
      mhLength (mhTryPad (header :: option :: rest)) := by
    intro hdrlen
    simp [first, setHdrlen, mhLength]
  have overwritten : ∀ hdrlen stale,
      setHdrlen hdrlen (setHdrlen stale (mhTryPad (header :: option :: rest))) =
        setHdrlen hdrlen (mhTryPad (header :: option :: rest)) := by
    intro hdrlen stale
    rw [first, setHdrlen, setHdrlen, List.set_set, setHdrlen]
  simp only [padAndSend, pmipMhSend, again, longAs, overwritten]

/-! ## Walking over the options -/

/-- An option that `mh_opt_parse` steps over as a whole. -/
structure Framed (option : List UInt8) : Prop where
  size : option.length = (option.getD 1 0).toNat + 2
  walked : optType option ∈ [0x01, 0x08, 0x16, 0x17, 0x18, 0x19, 0x1B]

/-- The offsets of the options of a vector that starts at `i`. -/
def located (mhOpts : MhOptions) (i : Nat) : List (List UInt8) → MhOptions
  | [] => mhOpts
  | option :: rest =>
      located (if optType option = 1 then mhOpts
        else { mhOpts with opts := Function.update mhOpts.opts (optType option) i })
        (i + option.length) rest

theorem optLoop_end (dupBeyond : Nat → Bool) (mh : Buffer) (fuel i : Nat) (mhOpts : MhOptions) :
    optLoop dupBeyond mh fuel 0 i false mhOpts = some mhOpts := by
  cases fuel with
  | zero => rfl
  | succ fuel => rfl

theorem optLoop_option (dupBeyond : Nat → Bool) {mh : Buffer} {i : Nat} {option : List UInt8}
    (framed : Framed option) (holds : Holds mh i option) (fuel left : Nat) {mhOpts : MhOptions}
    (fresh : optType option ≠ 1 → mhOpts.opts (optType option) = 0) :
    optLoop dupBeyond mh (fuel + 1) (option.length + left) i false mhOpts =
      optLoop dupBeyond mh fuel left (i + option.length) false (located mhOpts i [option]) := by
  obtain ⟨size, walked⟩ := framed
  match option, size with
  | [], size => exact absurd size (by simp)
  | [type], size => exact absurd size (by simp)
  | type :: len :: body, size =>
      obtain ⟨first, second, _⟩ := holds
      have long : (type :: len :: body).length = len.toNat + 2 := size
      have some : len.toNat + 2 + left = len.toNat + left + 1 + 1 := by omega
      have advanced : len.toNat + left + 1 + 1 - (len.toNat + 2) = left := by omega
      have is : optType (type :: len :: body) = type.toNat := rfl
      rw [is] at walked fresh
      rw [long, some, located, located, is]
      simp only [optLoop, first, second, advanced]
      simp only [List.mem_cons, List.not_mem_nil, or_false] at walked
      have nonempty : ¬ len.toNat + left + 1 + 1 < 2 := by omega
      rcases walked with one | known
      · simp [one, mhOptLenChk, nonempty]
      · have listed : type.toNat ≤ ip6MhoptMax ∧ type.toNat ≠ 0 ∧ type.toNat ≠ 1 ∧
            type.toNat ≠ 5 := by
          unfold ip6MhoptMax
          omega
        have unchecked : mhOptLenChk type.toNat (len.toNat + 2) = false := by
          rcases known with known | known | known | known | known | known <;>
            simp [known, mhOptLenChk]
        obtain ⟨inside, notPad1, notPadN, notAuth⟩ := listed
        simp [inside, notPad1, notPadN, notAuth, unchecked, nonempty, recordOpt, fresh notPadN]

/-- The loop finds every option of a vector of distinct types, whatever the
options hold. -/
theorem optLoop_located (dupBeyond : Nat → Bool) (mh : Buffer) (options : List (List UInt8))
    (framed : ∀ option ∈ options, Framed option)
    (distinct : ((options.map optType).filter (· ≠ 1)).Nodup) (fuel i : Nat) (mhOpts : MhOptions)
    (fresh : ∀ option ∈ options, optType option ≠ 1 → mhOpts.opts (optType option) = 0)
    (enough : options.flatten.length ≤ fuel) (holds : Holds mh i options.flatten) :
    optLoop dupBeyond mh fuel options.flatten.length i false mhOpts =
      some (located mhOpts i options) := by
  induction options generalizing fuel i mhOpts with
  | nil => exact optLoop_end dupBeyond mh fuel i mhOpts
  | cons option rest ih =>
      have isFramed := framed option List.mem_cons_self
      rw [List.flatten_cons, holds_append] at holds
      rw [List.flatten_cons, List.length_append] at enough
      rw [List.flatten_cons, List.length_append]
      have sized := isFramed.size
      obtain ⟨fuel, rfl⟩ : ∃ less, fuel = less + 1 := ⟨fuel - 1, by omega⟩
      rw [optLoop_option dupBeyond isFramed holds.1 fuel _ (fresh option List.mem_cons_self)]
      have rest_distinct : ((rest.map optType).filter (· ≠ 1)).Nodup := by
        rw [List.map_cons, List.filter_cons] at distinct
        split at distinct
        · exact (List.nodup_cons.mp distinct).2
        · exact distinct
      apply ih (fun other member => framed other (List.mem_cons_of_mem _ member)) rest_distinct fuel
        (i + option.length) _ _ (by omega) holds.2
      intro other member notPad
      have was := fresh other (List.mem_cons_of_mem _ member) notPad
      rw [located, located]
      split
      · exact was
      · rename_i counted
        have differs : optType other ≠ optType option := by
          intro same
          rw [List.map_cons, List.filter_cons, if_pos (by simpa using counted),
            List.nodup_cons] at distinct
          apply distinct.1
          rw [List.mem_filter, ← same]
          exact ⟨List.mem_map_of_mem member, by simpa using notPad⟩
        exact (Function.update_of_ne differs i mhOpts.opts).trans was

/-- What a receiver finds in the memory behind a message of this format. -/
structure Layout (m : Received) (header : List UInt8) (options : List (List UInt8)) : Prop where
  long : m.len = 12 + options.flatten.length
  fixed : Holds m.mh 6 (header.drop 6)
  options : Holds m.mh 12 options.flatten

theorem Carries.layout {m : Received} {header : List UInt8} {options : List (List UInt8)}
    (sized : header.length = 12) (some : options ≠ [])
    (carried : Carries m (pmipMhSend (header :: options))) :
    Layout m header (padOptions 12 0 options) := by
  obtain ⟨length, same⟩ := carried
  rw [pmipMhSend, mhTryPad_cons some, sized, setHdrlen, List.flatten_cons] at length same
  generalize hdrlen : UInt8.ofNat _ - 1 = field at length same
  rw [List.length_append, List.length_set, sized] at length same
  constructor
  · exact length
  · apply holds_of_getElem
    intro k inside
    rw [List.length_drop, sized] at inside
    have found := same (6 + k) (by omega) (by omega) (by omega)
    rw [List.getElem?_append_left (by rw [List.length_set]; omega),
      List.getElem?_set_ne (by omega)] at found
    rw [List.getElem?_drop]
    exact found
  · apply holds_of_getElem
    intro k inside
    have found := same (12 + k) (by omega) (by omega) (by omega)
    rw [List.getElem?_append_right (by rw [List.length_set]; omega), List.length_set, sized,
      Nat.add_sub_cancel_left] at found
    exact found

theorem Layout.parsed {m : Received} {header : List UInt8} {options : List (List UInt8)}
    (layout : Layout m header options) (dupBeyond : Nat → Bool)
    (framed : ∀ option ∈ options, Framed option)
    (distinct : ((options.map optType).filter (· ≠ 1)).Nodup) :
    mhOptParse dupBeyond m.mh m.len 12 = some (located MhOptions.zero 12 options) := by
  rw [mhOptParse, layout.long, Nat.add_sub_cancel_left]
  exact optLoop_located dupBeyond m.mh options framed distinct _ 12 MhOptions.zero
    (fun _ _ _ => rfl) (Nat.le_refl _) layout.options

theorem copy_of_holds {n : Nat} {mh : Buffer} {i : Nat} (content : Octets n)
    (holds : Holds mh i content.bytes) : copy n mh i = content := by
  apply Octets.ext_bytes
  have read := holds.read
  rw [content.size] at read
  exact read

@[simp] theorem store16_length (order : ByteOrder) (x : UInt16) : (order.store16 x).length = 2 := by
  cases order <;> rfl

@[simp] theorem store32_length (order : ByteOrder) (x : UInt32) : (order.store32 x).length = 4 := by
  cases order <;> rfl

section Options
variable (order : ByteOrder) (nai : Nai) (addr : In6Addr) (hi att : UInt8) (lli : Octets 8)
variable (ts : Ip6ts)

@[simp] theorem mnidOpt_length : (mhCreateOptMobileNodeIdentifier nai).length = 66 := by
  simp [mhCreateOptMobileNodeIdentifier, nai.size]

@[simp] theorem hnpOpt_length : (mhCreateOptHomeNetPrefix addr).length = 20 := by
  simp [mhCreateOptHomeNetPrefix, addr.size]

@[simp] theorem hiOpt_length : (mhCreateOptHandoffIndicator hi).length = 4 := rfl

@[simp] theorem attOpt_length : (mhCreateOptAccessTechnologyType att).length = 4 := rfl

@[simp] theorem mnlliOpt_length : (mhCreateOptMobileNodeLinkLayerIdentifier lli).length = 12 := by
  simp [mhCreateOptMobileNodeLinkLayerIdentifier, lli.size]

@[simp] theorem tsOpt_length : (mhCreateOptTimeStamp order ts).length = 10 := by
  simp [mhCreateOptTimeStamp]

@[simp] theorem mnidOpt_type : optType (mhCreateOptMobileNodeIdentifier nai) = 0x08 := rfl

@[simp] theorem hnpOpt_type : optType (mhCreateOptHomeNetPrefix addr) = 0x16 := rfl

@[simp] theorem hiOpt_type : optType (mhCreateOptHandoffIndicator hi) = 0x17 := rfl

@[simp] theorem attOpt_type : optType (mhCreateOptAccessTechnologyType att) = 0x18 := rfl

@[simp] theorem mnlliOpt_type : optType (mhCreateOptMobileNodeLinkLayerIdentifier lli) = 0x19 := rfl

@[simp] theorem tsOpt_type : optType (mhCreateOptTimeStamp order ts) = 0x1B := rfl

@[simp] theorem pad_type : optType (createOptPad 6) = 0x01 := rfl

theorem framed_mnid : Framed (mhCreateOptMobileNodeIdentifier nai) :=
  ⟨by rw [mnidOpt_length]; rfl, by simp⟩

theorem framed_hnp : Framed (mhCreateOptHomeNetPrefix addr) :=
  ⟨by rw [hnpOpt_length]; rfl, by simp⟩

theorem framed_hi : Framed (mhCreateOptHandoffIndicator hi) := ⟨rfl, by simp⟩

theorem framed_att : Framed (mhCreateOptAccessTechnologyType att) := ⟨rfl, by simp⟩

theorem framed_mnlli : Framed (mhCreateOptMobileNodeLinkLayerIdentifier lli) :=
  ⟨by rw [mnlliOpt_length]; rfl, by simp⟩

theorem framed_ts : Framed (mhCreateOptTimeStamp order ts) :=
  ⟨by rw [tsOpt_length]; rfl, by simp⟩

theorem framed_pad : Framed (createOptPad 6) := ⟨rfl, by simp⟩

variable {mh : Buffer} {i : Nat}

theorem copy_mnid (holds : Holds mh i (mhCreateOptMobileNodeIdentifier nai)) :
    copy 63 mh (i + 3) = nai :=
  copy_of_holds nai holds.2.2.2

theorem copy_hnp (holds : Holds mh i (mhCreateOptHomeNetPrefix addr)) :
    copy 16 mh (i + 4) = addr :=
  copy_of_holds addr holds.2.2.2.2

theorem copy_mnlli (holds : Holds mh i (mhCreateOptMobileNodeLinkLayerIdentifier lli)) :
    copy 8 mh (i + 4) = lli :=
  copy_of_holds lli holds.2.2.2.2

theorem load_ts (holds : Holds mh i (mhCreateOptTimeStamp order ts)) :
    (⟨order.load32 (mh (i + 2)) (mh (i + 2 + 1)) (mh (i + 2 + 2)) (mh (i + 2 + 3)),
      order.load32 (mh (i + 6)) (mh (i + 6 + 1)) (mh (i + 6 + 2)) (mh (i + 6 + 3))⟩ : Ip6ts) =
        ts := by
  obtain ⟨_, _, words⟩ := holds
  obtain ⟨first, second⟩ := (holds_append _ _ _ _).mp words
  rw [store32_length] at second
  rw [load32_store32 order ts.first first, load32_store32 order ts.second second]

end Options

/-! ## Updates and acknowledgements -/

theorem pbuHeader_length (order : ByteOrder) (pbu : Pbu) : (pbuHeader order pbu).length = 12 := by
  simp [pbuHeader, mhCreate]

def pbuOptions (order : ByteOrder) (pbu : Pbu) : List (List UInt8) :=
  mhCreateOptMobileNodeIdentifier pbu.mnNai ::
    createOptPad 6 ::
    mhCreateOptHomeNetPrefix pbu.mnPrefix ::
    mhCreateOptHandoffIndicator 3 ::
    mhCreateOptAccessTechnologyType 4 ::
    mhCreateOptMobileNodeLinkLayerIdentifier pbu.mnId ::
    (pbu.timestamp.map fun ts => [createOptPad 6, mhCreateOptTimeStamp order ts]).getD []

theorem padOptions_pbuVec (order : ByteOrder) (pbu : Pbu) :
    padOptions 12 0 (pbuVec order pbu).tail = pbuOptions order pbu := by
  cases known : pbu.timestamp with
  | none =>
      simp [pbuVec, pbuOptions, known, padOptions, padBefore, optpad,
        mhCreateOptMobileNodeIdentifier, mhCreateOptHomeNetPrefix, mhCreateOptHandoffIndicator,
        mhCreateOptAccessTechnologyType, mhCreateOptMobileNodeLinkLayerIdentifier, Octets.size]
  | some ts =>
      simp [pbuVec, pbuOptions, known, padOptions, padBefore, optpad,
        mhCreateOptMobileNodeIdentifier, mhCreateOptHomeNetPrefix, mhCreateOptHandoffIndicator,
        mhCreateOptAccessTechnologyType, mhCreateOptMobileNodeLinkLayerIdentifier,
        mhCreateOptTimeStamp, Octets.size]

theorem pbuBytes_eq (order : ByteOrder) (pbu : Pbu) :
    pbuBytes order pbu = retransBytes order pbu := by
  apply padAndSend_eq
  cases pbu.timestamp with
  | none => simp [alignedTypes]
  | some ts => simp [alignedTypes]

theorem framed_pbuOptions (order : ByteOrder) (pbu : Pbu) :
    ∀ option ∈ pbuOptions order pbu, Framed option := by
  cases known : pbu.timestamp with
  | none =>
      simp [pbuOptions, known, framed_mnid, framed_pad, framed_hnp, framed_hi, framed_att,
        framed_mnlli]
  | some ts =>
      simp [pbuOptions, known, framed_mnid, framed_pad, framed_hnp, framed_hi, framed_att,
        framed_mnlli, framed_ts]

theorem distinct_pbuOptions (order : ByteOrder) (pbu : Pbu) :
    (((pbuOptions order pbu).map optType).filter (· ≠ 1)).Nodup := by
  cases known : pbu.timestamp with
  | none => simp [pbuOptions, known]
  | some ts => simp [pbuOptions, known]

theorem Carries.pbu {m : Received} {order : ByteOrder} {pbu : Pbu}
    (carried : Carries m (retransBytes order pbu)) :
    Layout m (pbuHeader order pbu) (pbuOptions order pbu) := by
  have layout := Carries.layout (pbuHeader_length order pbu) (List.cons_ne_nil _ _) carried
  rw [← padOptions_pbuVec]
  exact layout

theorem located_pbuOptions (order : ByteOrder) (pbu : Pbu) :
    let mhOpts := located MhOptions.zero 12 (pbuOptions order pbu)
    mhOpt mhOpts 0x08 = some 12 ∧ mhOpt mhOpts 0x16 = some 84 ∧ mhOpt mhOpts 0x19 = some 112 ∧
      mhOpt mhOpts 0x1B = pbu.timestamp.map fun _ => 130 := by
  cases known : pbu.timestamp with
  | none => simp [pbuOptions, known, located, MhOptions.zero, mhOpt, createOptPad_length]
  | some ts => simp [pbuOptions, known, located, MhOptions.zero, mhOpt, createOptPad_length]

theorem mobilityOptionsOn_pbu {m : Received} {order : ByteOrder} {pbu : Pbu}
    (layout : Layout m (pbuHeader order pbu) (pbuOptions order pbu)) :
    mobilityOptionsOn order m.mh (located MhOptions.zero 12 (pbuOptions order pbu)) =
      { mnNai := some pbu.mnNai
        mnPrefix := some pbu.mnPrefix
        mnId := some pbu.mnId
        timestamp := pbu.timestamp } := by
  obtain ⟨mnid, hnp, mnlli, ts⟩ := located_pbuOptions order pbu
  have holds := layout.options
  simp only [pbuOptions, List.flatten_cons, holds_append, mnidOpt_length, hnpOpt_length,
    hiOpt_length, attOpt_length, mnlliOpt_length, createOptPad_length, Nat.reduceAdd] at holds
  obtain ⟨atMnid, _, atHnp, _, _, atMnlli, atTs⟩ := holds
  simp only [mobilityOptionsOn, mobilityOptions, mnid, hnp, mnlli, ts, Option.map_some]
  rw [copy_mnid pbu.mnNai atMnid, copy_hnp pbu.mnPrefix atHnp, copy_mnlli pbu.mnId atMnlli]
  congr 1
  cases known : pbu.timestamp with
  | none => rfl
  | some ts =>
      rw [known] at atTs
      simp only [Option.map_some, Option.getD_some, List.flatten_cons, List.flatten_nil,
        List.append_nil, holds_append, createOptPad_length, Nat.reduceAdd] at atTs
      exact congrArg some (load_ts order ts atTs.2)

/-- A receiver of the sender's byte order gets every field of an update back;
only the flags, which the sender does not convert, come out converted. -/
theorem decodePbuOn_carried {m : Received} {order : ByteOrder} {pbu : Pbu}
    (carried : Carries m (pbuBytes order pbu)) (dupBeyond : Nat → Bool) :
    decodePbuOn order dupBeyond m = some
      { flags := order.net16 pbu.flags
        lifetime := pbu.lifetime
        seqno := pbu.seqno
        options := {
          mnNai := some pbu.mnNai
          mnPrefix := some pbu.mnPrefix
          mnId := some pbu.mnId
          timestamp := pbu.timestamp } } := by
  rw [pbuBytes_eq] at carried
  have layout := carried.pbu
  have long : ¬ m.len < 12 := by
    have := layout.long
    omega
  have fixed : Holds m.mh 6 (order.store16 (order.net16 pbu.seqno) ++ order.store16 pbu.flags ++
      order.store16 (order.net16 pbu.lifetime)) := layout.fixed
  simp only [holds_append, List.length_append, store16_length, Nat.reduceAdd] at fixed
  obtain ⟨⟨seqno, flags⟩, lifetime⟩ := fixed
  rw [decodePbuOn, if_neg long, layout.parsed dupBeyond (framed_pbuOptions order pbu)
    (distinct_pbuOptions order pbu), Option.map_some, mobilityOptionsOn_pbu layout,
    load16_store16 order _ seqno, load16_store16 order _ flags, load16_store16 order _ lifetime,
    net16_net16, net16_net16]

theorem pbaHeader_length (order : ByteOrder) (pba : Pba) : (pbaHeader order pba).length = 12 := by
  simp [pbaHeader, mhCreate]

def pbaOptions (order : ByteOrder) (pba : Pba) : List (List UInt8) :=
  [mhCreateOptMobileNodeIdentifier pba.mnNai,
    createOptPad 6,
    mhCreateOptHomeNetPrefix pba.mnPrefix,
    mhCreateOptMobileNodeLinkLayerIdentifier pba.mnId,
    createOptPad 6,
    mhCreateOptTimeStamp order pba.timestamp]

theorem padOptions_pbaVec (order : ByteOrder) (pba : Pba) :
    padOptions 12 0 (pbaVec order pba).tail = pbaOptions order pba := by
  simp [pbaVec, pbaOptions, padOptions, padBefore, optpad, mhCreateOptMobileNodeIdentifier,
    mhCreateOptHomeNetPrefix, mhCreateOptMobileNodeLinkLayerIdentifier, mhCreateOptTimeStamp,
    Octets.size]

theorem pbaBytes_eq (order : ByteOrder) (pba : Pba) :
    pbaBytes order pba = pmipMhSend (pbaVec order pba) := by
  apply padAndSend_eq
  simp [alignedTypes]

theorem framed_pbaOptions (order : ByteOrder) (pba : Pba) :
    ∀ option ∈ pbaOptions order pba, Framed option := by
  simp [pbaOptions, framed_mnid, framed_pad, framed_hnp, framed_mnlli, framed_ts]

theorem distinct_pbaOptions (order : ByteOrder) (pba : Pba) :
    (((pbaOptions order pba).map optType).filter (· ≠ 1)).Nodup := by
  simp [pbaOptions]

theorem Carries.pba {m : Received} {order : ByteOrder} {pba : Pba}
    (carried : Carries m (pbaBytes order pba)) :
    Layout m (pbaHeader order pba) (pbaOptions order pba) := by
  rw [pbaBytes_eq] at carried
  have layout := Carries.layout (pbaHeader_length order pba) (List.cons_ne_nil _ _) carried
  rw [← padOptions_pbaVec]
  exact layout

theorem located_pbaOptions (order : ByteOrder) (pba : Pba) :
    let mhOpts := located MhOptions.zero 12 (pbaOptions order pba)
    mhOpt mhOpts 0x08 = some 12 ∧ mhOpt mhOpts 0x16 = some 84 ∧ mhOpt mhOpts 0x19 = some 104 ∧
      mhOpt mhOpts 0x1B = some 122 := by
  simp [pbaOptions, located, MhOptions.zero, mhOpt, createOptPad_length]

theorem mobilityOptionsOn_pba {m : Received} {order : ByteOrder} {pba : Pba}
    (layout : Layout m (pbaHeader order pba) (pbaOptions order pba)) :
    mobilityOptionsOn order m.mh (located MhOptions.zero 12 (pbaOptions order pba)) =
      { mnNai := some pba.mnNai
        mnPrefix := some pba.mnPrefix
        mnId := some pba.mnId
        timestamp := some pba.timestamp } := by
  obtain ⟨mnid, hnp, mnlli, ts⟩ := located_pbaOptions order pba
  have holds := layout.options
  simp only [pbaOptions, List.flatten_cons, List.flatten_nil, List.append_nil, holds_append,
    mnidOpt_length, hnpOpt_length, mnlliOpt_length, createOptPad_length, Nat.reduceAdd] at holds
  obtain ⟨atMnid, _, atHnp, atMnlli, _, atTs⟩ := holds
  simp only [mobilityOptionsOn, mobilityOptions, mnid, hnp, mnlli, ts, Option.map_some]
  rw [copy_mnid pba.mnNai atMnid, copy_hnp pba.mnPrefix atHnp, copy_mnlli pba.mnId atMnlli,
    load_ts order pba.timestamp atTs]

/-- The flags are one byte, and the receiver converts them as if they were two. -/
theorem decodePbaOn_carried {m : Received} {order : ByteOrder} {pba : Pba}
    (carried : Carries m (pbaBytes order pba)) (dupBeyond : Nat → Bool) :
    decodePbaOn order dupBeyond m = some
      { flags := (order.net16 pba.flags.toUInt16).toUInt8
        lifetime := pba.lifetime
        seqno := pba.seqno
        options := {
          mnNai := some pba.mnNai
          mnPrefix := some pba.mnPrefix
          mnId := some pba.mnId
          timestamp := some pba.timestamp } } := by
  have layout := carried.pba
  have long : ¬ m.len < 12 := by
    have := layout.long
    omega
  have fixed : Holds m.mh 6 ([pba.status, pba.flags] ++ order.store16 (order.net16 pba.seqno) ++
      order.store16 (order.net16 pba.lifetime)) := layout.fixed
  simp only [holds_append, List.length_append, List.length_cons, List.length_nil, store16_length,
    Nat.reduceAdd] at fixed
  obtain ⟨⟨⟨_, flags, _⟩, seqno⟩, lifetime⟩ := fixed
  rw [decodePbaOn, if_neg long, layout.parsed dupBeyond (framed_pbaOptions order pba)
    (distinct_pbaOptions order pba), Option.map_some, mobilityOptionsOn_pba layout, flags,
    load16_store16 order _ seqno, load16_store16 order _ lifetime, net16_net16, net16_net16]

/-- The length that the mobility header format asks for: whole units of eight
bytes, one less than their number in the second byte. -/
def WellSized (bytes : List UInt8) : Prop :=
  8 ∣ bytes.length ∧ bytes.length = 8 * ((bytes.getD 1 0).toNat + 1)

theorem pmipMhSend_length (header : List UInt8) {options : List (List UInt8)}
    (some : options ≠ []) :
    (pmipMhSend (header :: options)).length =
      header.length + mhLength (padOptions header.length 0 options) := by
  simp only [pmipMhSend, mhTryPad_cons some, setHdrlen, List.flatten_cons, List.length_append,
    List.length_set, List.length_flatten, mhLength]

theorem pmipMhSend_hdrlen {header : List UInt8} (long : 2 ≤ header.length)
    {options : List (List UInt8)} (some : options ≠ []) :
    (pmipMhSend (header :: options)).getD 1 0 =
      UInt8.ofNat ((pmipMhSend (header :: options)).length / 8) - 1 := by
  have total := pmipMhSend_length header some
  have counted : mhLength (mhTryPad (header :: options)) =
      header.length + mhLength (padOptions header.length 0 options) := by
    simp only [mhTryPad_cons some, mhLength, List.map_cons, List.sum_cons]
  have inside : 1 < (header.set 1
      (UInt8.ofNat (mhLength (mhTryPad (header :: options)) / 8) - 1)).length := by
    rw [List.length_set]
    omega
  rw [total, ← counted, pmipMhSend]
  simp only [mhTryPad_cons some, setHdrlen, List.flatten_cons]
  simp only [mhTryPad_cons some] at inside
  rw [List.getD_eq_getElem?_getD, List.getElem?_append_left inside,
    List.getElem?_set_self (by omega)]
  rfl

theorem pmipMhSend_units {header : List UInt8} (long : 8 ≤ header.length)
    {options : List (List UInt8)} (some : options ≠ [])
    (short : (pmipMhSend (header :: options)).length < 2048) :
    (pmipMhSend (header :: options)).length =
      8 * (((pmipMhSend (header :: options)).getD 1 0).toNat + 1) +
        (pmipMhSend (header :: options)).length % 8 := by
  have total := pmipMhSend_length header some
  have field := pmipMhSend_hdrlen (by omega : 2 ≤ header.length) some
  have one : (1 : UInt8).toNat = 1 := rfl
  rw [field, UInt8.toNat_sub, UInt8.toNat_ofNat', one]
  omega

theorem mhLength_pbuOptions (order : ByteOrder) (pbu : Pbu) :
    mhLength (pbuOptions order pbu) = if pbu.timestamp.isSome then 128 else 112 := by
  cases known : pbu.timestamp with
  | none => simp [pbuOptions, known, mhLength, createOptPad_length]
  | some ts => simp [pbuOptions, known, mhLength, createOptPad_length]

theorem mhLength_pbaOptions (order : ByteOrder) (pba : Pba) :
    mhLength (pbaOptions order pba) = 120 := by
  simp [pbaOptions, mhLength, createOptPad_length]

theorem retransBytes_length (order : ByteOrder) (pbu : Pbu) :
    (retransBytes order pbu).length = if pbu.timestamp.isSome then 140 else 124 := by
  rw [retransBytes, pbuVec, pmipMhSend_length _ (List.cons_ne_nil _ _), pbuHeader_length]
  change 12 + mhLength (padOptions 12 0 (pbuVec order pbu).tail) = _
  rw [padOptions_pbuVec, mhLength_pbuOptions]
  split
  · rfl
  · rfl

theorem pbaBytes_length (order : ByteOrder) (pba : Pba) : (pbaBytes order pba).length = 132 := by
  rw [pbaBytes_eq, pbaVec, pmipMhSend_length _ (List.cons_ne_nil _ _), pbaHeader_length]
  change 12 + mhLength (padOptions 12 0 (pbaVec order pba).tail) = _
  rw [padOptions_pbaVec, mhLength_pbaOptions]

/-- The end of the last option is not padded: four bytes are left over in every
message, and its length field does not count them. -/
theorem retransBytes_overrun (order : ByteOrder) (pbu : Pbu) :
    (retransBytes order pbu).length = 8 * (((retransBytes order pbu).getD 1 0).toNat + 1) + 4 := by
  have length := retransBytes_length order pbu
  have units : (retransBytes order pbu).length =
      8 * (((retransBytes order pbu).getD 1 0).toNat + 1) + (retransBytes order pbu).length % 8 := by
    apply pmipMhSend_units
    · rw [pbuHeader_length]
      omega
    · exact List.cons_ne_nil _ _
    · change (retransBytes order pbu).length < 2048
      split at length <;> omega
  split at length <;> omega

theorem pbaBytes_overrun (order : ByteOrder) (pba : Pba) :
    (pbaBytes order pba).length = 8 * (((pbaBytes order pba).getD 1 0).toNat + 1) + 4 := by
  have length := pbaBytes_length order pba
  rw [pbaBytes_eq] at length ⊢
  have units : (pmipMhSend (pbaVec order pba)).length =
      8 * (((pmipMhSend (pbaVec order pba)).getD 1 0).toNat + 1) +
        (pmipMhSend (pbaVec order pba)).length % 8 := by
    apply pmipMhSend_units
    · rw [pbaHeader_length]
      omega
    · exact List.cons_ne_nil _ _
    · change (pmipMhSend (pbaVec order pba)).length < 2048
      omega
  omega

theorem not_wellSized_of_overrun {bytes : List UInt8}
    (overrun : bytes.length = 8 * ((bytes.getD 1 0).toNat + 1) + 4) : ¬ WellSized bytes := by
  intro sized
  have exactly := sized.2
  omega

/-- No update and no acknowledgement is well sized, however it is sent. -/
theorem messages_not_wellSized (order : ByteOrder) :
    (∀ pbu, ¬ WellSized (pbuBytes order pbu)) ∧ (∀ pbu, ¬ WellSized (retransBytes order pbu)) ∧
      ∀ pba, ¬ WellSized (pbaBytes order pba) := by
  refine ⟨?_, ?_, ?_⟩
  · intro pbu
    rw [pbuBytes_eq]
    exact not_wellSized_of_overrun (retransBytes_overrun order pbu)
  · intro pbu
    exact not_wellSized_of_overrun (retransBytes_overrun order pbu)
  · intro pba
    exact not_wellSized_of_overrun (pbaBytes_overrun order pba)

/-- An update with the time takes 140 bytes, of which its length field counts
136. -/
theorem stamped_update_overruns :
    (pbuBytes .little ⟨1, 0x82, 10, Octets.zero 63, in6addrAny, Octets.zero 8,
        some ⟨0, 0⟩⟩).length = 140 ∧
      (pbuBytes .little ⟨1, 0x82, 10, Octets.zero 63, in6addrAny, Octets.zero 8,
        some ⟨0, 0⟩⟩).getD 1 0 = 16 ∧
      ¬ ∀ pbu : Pbu, WellSized (pbuBytes .little pbu) := by
  have length : (pbuBytes .little ⟨1, 0x82, 10, Octets.zero 63, in6addrAny, Octets.zero 8,
      some ⟨0, 0⟩⟩).length = 140 := by
    rw [pbuBytes_eq, retransBytes_length]
    rfl
  refine ⟨length, by decide +kernel, ?_⟩
  intro claimed
  have whole := (claimed ⟨1, 0x82, 10, Octets.zero 63, in6addrAny, Octets.zero 8,
    some ⟨0, 0⟩⟩).1
  rw [length] at whole
  omega

end OaiPmip.Msgs
