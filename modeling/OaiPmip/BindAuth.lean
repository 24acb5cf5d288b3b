import OaiPmip.MhBounds
import OaiPmip.MhPadding
import OaiPmip.MnpWalk

/-!
# Binding authorization data, mh.c

`mh_send` hashes the vector of an update with its last option cut down to the
header, and `mh_verify_auth_data` the received bytes without the authenticator.
HMAC-SHA1 is any function of a key and the bytes it is given, one piece after the
other.
-/

set_option autoImplicit false

namespace OaiPmip.Mh

open OaiPmip.Ha OaiPmip.Msgs OaiPmip.Padding OaiPmip.Records OaiPmip.Wire

def mhCreateOptRefreshAdvice (order : ByteOrder) (interval : UInt16) : List UInt8 :=
  2 :: 2 :: order.store16 interval

def mhCreateOptAltcoa (addr : In6Addr) : List UInt8 := 3 :: 16 :: addr.bytes

def mhCreateOptNonceIndex (order : ByteOrder) (homeNonce coaNonce : UInt16) : List UInt8 :=
  4 :: 4 :: (order.store16 (order.net16 homeNonce) ++ order.store16 (order.net16 coaNonce))

def mipv6DigestLen : Nat := 12

def mhCreateOptAuthData : List UInt8 := 5 :: 12 :: List.replicate mipv6DigestLen 0

def mobNetPrefixOpt (p : PrefixListEntry) : List UInt8 :=
  6 :: 18 :: 0 :: p.plePlen :: p.plePrefix.bytes

/-- The loop of `mh_create_opt_mob_net_prefix`, which pads between the prefixes;
`i` counts those before. -/
def mobNetPrefixes (mnpCount : Nat) : Nat → List PrefixListEntry → List UInt8
  | _, [] => []
  | i, p :: rest =>
      mobNetPrefixOpt p ++
        ((if i + 1 < mnpCount then createOptPad 4 else []) ++ mobNetPrefixes mnpCount (i + 1) rest)

def mhCreateOptMobNetPrefix (mnps : List PrefixListEntry) : List UInt8 :=
  mobNetPrefixes mnps.length 0 mnps

/-- An option of a binding update, but for the authorization data. -/
inductive MhOption where
  | refreshAdvice (interval : UInt16)
  | altcoa (addr : In6Addr)
  | nonceIndex (homeNonce coaNonce : UInt16)
  | mobNetPrefix (mnp : PrefixListEntry) (mnps : List PrefixListEntry)

def MhOption.type : MhOption → Nat
  | .refreshAdvice _ => 2
  | .altcoa _ => 3
  | .nonceIndex _ _ => 4
  | .mobNetPrefix _ _ => 6

def MhOption.bytes (order : ByteOrder) : MhOption → List UInt8
  | .refreshAdvice interval => mhCreateOptRefreshAdvice order interval
  | .altcoa addr => mhCreateOptAltcoa addr
  | .nonceIndex homeNonce coaNonce => mhCreateOptNonceIndex order homeNonce coaNonce
  | .mobNetPrefix mnp mnps => mhCreateOptMobNetPrefix (mnp :: mnps)

/-- The switch of `mh_try_pad` in mh.c. -/
def padRule (option : List UInt8) : Option AlignRule :=
  match optType option with
  | 2 => some (.ofFin (0 : Fin 2))
  | 3 => some (.ofFin (6 : Fin 8))
  | 4 => some (.ofFin (0 : Fin 2))
  | 5 => some (.ofFin (2 : Fin 8))
  | 6 => some (.ofFin (4 : Fin 8))
  | _ => none

def mhTryPad : List (List UInt8) → List (List UInt8)
  | [] => []
  | [header] => [header, createOptPad (optpad 8 0 header.length)]
  | header :: options => header :: padWith List.length padRule createOptPad header.length 0 options

abbrev Hmac := Octets 20 → List UInt8 → Octets 20

section Auth
variable (hmac : Hmac)

def calculateAuthData (iov : List (List UInt8)) (coa cn : In6Addr) (key : Octets 20) : List UInt8 :=
  (hmac key (coa.bytes ++ cn.bytes ++ iov.flatten)).bytes.take mipv6DigestLen

/-- The last element of the vector, when it is authorization data: its header is
hashed with the elements before it, and the digest is put in the place of its
data. -/
def addAuthData (coa cn : In6Addr) (key : Octets 20) (iov : List (List UInt8)) :
    List (List UInt8) :=
  match iov.getLast? with
  | none => iov
  | some bauth =>
      if optType bauth = 5 then
        let hashed := iov.dropLast ++ [bauth.take (bauth.length - mipv6DigestLen)]
        iov.dropLast ++ [bauth.take 2 ++ calculateAuthData hmac hashed coa cn key]
      else iov

/-- The bytes that `mh_send` sends with a key; `cn` is `addrs->dst` of an update. -/
def mhSend (coa cn : In6Addr) (key : Octets 20) (mhVec : List (List UInt8)) : List UInt8 :=
  let iov := mhTryPad mhVec
  let iov := setHdrlen (UInt8.ofNat (mhLength iov / 8) - 1) iov
  (addAuthData hmac coa cn key iov).flatten

/-- `mh_verify_auth_data`: whether the data is right. -/
def mhVerifyAuthData (msg : Buffer) (len opt : Nat) (coa cn : In6Addr) (key : Octets 20) : Bool :=
  let moadLen := (msg (opt + 1)).toNat
  let iov := [(List.range (len - moadLen)).map msg]
  let adata := calculateAuthData hmac iov coa cn key
  adata.take moadLen = (List.range moadLen).map fun k => msg (opt + 2 + k)

end Auth

/-! ## Options in memory -/

/-- An option that the parser steps over as a whole, whatever follows. -/
inductive Whole : List UInt8 → Prop
  | pad1 : Whole [0]
  | option (type len : UInt8) (data : List UInt8) (some : type ≠ 0)
      (sized : data.length = len.toNat)
      (accepted : mhOptLenChk type.toNat (len.toNat + 2) = false) : Whole (type :: len :: data)

def positions : Nat → List (List UInt8) → List Nat
  | _, [] => []
  | i, option :: rest => i :: positions (i + option.length) rest

theorem positions_append (i : Nat) (first second : List (List UInt8)) :
    positions i (first ++ second) =
      positions i first ++ positions (i + first.flatten.length) second := by
  induction first generalizing i with
  | nil => rfl
  | cons option rest ih =>
      simp only [List.cons_append, positions, ih, List.flatten_cons, List.length_append,
        Nat.add_assoc]

section Memory
variable {mh : Buffer} {len i : Nat}

theorem Whole.typeAt {option : List UInt8} (whole : Whole option) (holds : Holds mh i option) :
    typeAt mh i = optType option := by
  cases whole with
  | pad1 => exact congrArg UInt8.toNat holds.1
  | option type len data some sized accepted => exact congrArg UInt8.toNat holds.1

theorem Whole.size {option : List UInt8} (whole : Whole option) (holds : Holds mh i option) :
    (optionFraming mh).size i = option.length := by
  cases whole with
  | pad1 => exact if_pos holds.1
  | option type len data some sized accepted =>
      obtain ⟨first, second, _⟩ := holds
      refine (if_neg (by rw [first]; exact some)).trans ?_
      rw [second, List.length_cons, List.length_cons, sized]

theorem offsets_positions {options : List (List UInt8)} (whole : ∀ option ∈ options, Whole option)
    (holds : Holds mh i options.flatten) :
    (optionFraming mh).offsets i (i + options.flatten.length) = positions i options := by
  induction options generalizing i with
  | nil => exact Framing.offsets_nil _ (Nat.le_refl _)
  | cons option rest ih =>
      rw [List.flatten_cons, holds_append] at holds
      have isWhole := whole option List.mem_cons_self
      have size := isWhole.size holds.1
      have advances := (optionFraming mh).pos i
      rw [List.flatten_cons, List.length_append, Framing.offsets_cons _ (by omega), positions, size,
        ← Nat.add_assoc,
        ih (fun other member => whole other (List.mem_cons_of_mem _ member)) holds.2]

def Single (type : Nat) : Prop := 2 ≤ type ∧ type ≤ 5

instance (type : Nat) : Decidable (Single type) :=
  inferInstanceAs (Decidable (2 ≤ type ∧ type ≤ 5))

/-- Options that the parser accepts: whole, none of a type behind those of RFC
mobility, no single type twice, and nothing behind authorization data. -/
structure Acceptable (options : List (List UInt8)) : Prop where
  whole : ∀ option ∈ options, Whole option
  listed : ∀ option ∈ options, optType option ≤ 6
  once : ((options.map optType).filter fun type => Single type).Nodup
  last : ∀ option ∈ options.dropLast, optType option ≠ 5

theorem repeats_single {before : List Nat} (listed : typeAt mh i ≤ 6)
    (repeats : Repeats lenient mh before i) :
    Single (typeAt mh i) ∧ ∃ j ∈ before, typeAt mh j = typeAt mh i := by
  obtain ⟨known, again, disallowed⟩ := repeats
  refine ⟨⟨known.1, ?_⟩, again⟩
  by_contra large
  have isSix : typeAt mh i = 6 := by omega
  rw [isSix] at disallowed
  cases disallowed

theorem Whole.checks {option : List UInt8} (whole : Whole option) (holds : Holds mh i option)
    (some : Msgs.typeAt mh i ≠ 0) : 2 ≤ option.length ∧
      mhOptLenChk (Msgs.typeAt mh i) ((optionFraming mh).size i) = false := by
  rw [whole.size holds, whole.typeAt holds] at *
  cases whole with
  | pad1 => exact absurd rfl some
  | option type len data notZero sized accepted =>
      refine ⟨Nat.le_add_left 2 data.length, ?_⟩
      rw [List.length_cons, List.length_cons, sized]
      exact accepted

theorem walked_positions {options : List (List UInt8)} {before : List Nat}
    (whole : ∀ option ∈ options, Whole option) (listed : ∀ option ∈ options, optType option ≤ 6)
    (once : ((before.map (typeAt mh) ++ options.map optType).filter fun type => Single type).Nodup)
    (last : ∀ option ∈ options.dropLast, optType option ≠ 5)
    (unsigned : options ≠ [] → ∀ j ∈ before, typeAt mh j ≠ 5)
    (holds : Holds mh i options.flatten) :
    walked lenient mh (i + options.flatten.length) before (positions i options) =
      positions i options := by
  induction options generalizing i before with
  | nil => rfl
  | cons option rest ih =>
      rw [List.flatten_cons, holds_append] at holds
      have isWhole := whole option List.mem_cons_self
      have type := isWhole.typeAt holds.1
      have accepted : ¬ Refused lenient mh (i + (option :: rest).flatten.length) before i := by
        intro refused
        rcases refused with signed | ⟨some, short | malformed | repeats⟩
        · obtain ⟨j, member, is⟩ := signed
          exact unsigned (List.cons_ne_nil _ _) j member is
        · have long := (isWhole.checks holds.1 some).1
          rw [List.flatten_cons, List.length_append] at short
          omega
        · rw [(isWhole.checks holds.1 some).2] at malformed
          cases malformed
        · obtain ⟨single, j, member, same⟩ :=
            repeats_single (by rw [type]; exact listed option List.mem_cons_self) repeats
          rw [List.filter_append, List.nodup_append] at once
          refine once.2.2 (typeAt mh i) ?_ (typeAt mh i) ?_ rfl
          · rw [List.mem_filter, ← same]
            refine ⟨List.mem_map_of_mem member, ?_⟩
            rw [same]
            exact decide_eq_true single
          · rw [List.mem_filter, type]
            refine ⟨List.mem_cons_self, ?_⟩
            rw [← type]
            exact decide_eq_true single
      rw [positions, walked, if_neg accepted]
      refine congrArg (i :: ·) ?_
      rw [List.flatten_cons, List.length_append, ← Nat.add_assoc]
      apply ih (fun other member => whole other (List.mem_cons_of_mem _ member))
        (fun other member => listed other (List.mem_cons_of_mem _ member)) _ _ _ holds.2
      · rw [List.map_append, List.map_cons, List.map_nil, type, List.append_assoc]
        exact once
      · intro other member
        cases rest with
        | nil => cases member
        | cons next rest => exact last other (List.mem_cons_of_mem _ member)
      · intro more j member
        rcases List.mem_append.mp member with earlier | now
        · exact unsigned (List.cons_ne_nil _ _) j earlier
        · rw [List.mem_singleton.mp now, type]
          apply last option
          cases rest with
          | nil => exact absurd rfl more
          | cons next rest => exact List.mem_cons_self

theorem map_typeAt_positions {options : List (List UInt8)}
    (whole : ∀ option ∈ options, Whole option) (holds : Holds mh i options.flatten) :
    (positions i options).map (typeAt mh) = options.map optType := by
  induction options generalizing i with
  | nil => rfl
  | cons option rest ih =>
      rw [List.flatten_cons, holds_append] at holds
      rw [positions, List.map_cons, List.map_cons, (whole option List.mem_cons_self).typeAt holds.1,
        ih (fun other member => whole other (List.mem_cons_of_mem _ member)) holds.2]

end Memory

theorem memory_holds (msg : List UInt8) : Holds (memory msg) 0 msg := by
  apply holds_of_getElem
  intro k inside
  simp [memory, inside]

section Message
variable {fixed : List UInt8} {options : List (List UInt8)}

theorem memory_options (fixed : List UInt8) (options : List (List UInt8)) :
    Holds (memory (fixed ++ options.flatten)) fixed.length options.flatten := by
  have both := (holds_append _ 0 fixed options.flatten).mp (memory_holds _)
  rw [Nat.zero_add] at both
  exact both.2

theorem offsets_message (whole : ∀ option ∈ options, Whole option) :
    (optionFraming (memory (fixed ++ options.flatten))).offsets fixed.length
      (fixed ++ options.flatten).length = positions fixed.length options := by
  rw [List.length_append]
  exact offsets_positions whole (memory_options fixed options)

theorem mhOptParseRead_acceptable (acceptable : Acceptable options) (present : fixed ≠ []) :
    mhOptParseRead (fixed ++ options.flatten) fixed.length =
      .ok (some (recordedOptions (memory (fixed ++ options.flatten))
        (fixed ++ options.flatten).length fixed.length)) := by
  have holds := memory_options fixed options
  have offsets := @offsets_message fixed options acceptable.whole
  have reached : reachedOptions (fixed ++ options.flatten) fixed.length =
      positions fixed.length options := by
    rw [reachedOptions, offsets, List.length_append]
    exact @walked_positions _ fixed.length options [] acceptable.whole acceptable.listed
      acceptable.once acceptable.last (fun _ j member => absurd member List.not_mem_nil) holds
  have once :
      UnlistedOnce (memory (fixed ++ options.flatten)) (positions fixed.length options) := by
    rw [UnlistedOnce, map_typeAt_positions acceptable.whole holds]
    have none : (options.map optType).filter (fun type => decide (Unlisted type)) = [] := by
      apply List.filter_eq_nil_iff.mpr
      intro type member unlisted
      obtain ⟨option, isOption, rfl⟩ := List.mem_map.mp member
      have listed := acceptable.listed option isOption
      have above := (of_decide_eq_true unlisted).1
      omega
    rw [none]
    exact List.nodup_nil
  rw [mhOptParseRead_eq (List.length_pos_of_ne_nil present), reached, offsets, if_pos once,
    if_pos rfl]

end Message

/-- The options that one element of the vector is made of. -/
structure Splits (element : List UInt8) (options : List (List UInt8)) : Prop where
  flatten : options.flatten = element
  whole : ∀ option ∈ options, Whole option
  listed : ∀ option ∈ options, optType option ≤ 6 ∧ optType option ≠ 5
  single : (options.map optType).filter (fun type => Single type) =
    [optType element].filter fun type => Single type

theorem splits_option {element : List UInt8} (whole : Whole element)
    (listed : optType element ≤ 6 ∧ optType element ≠ 5) : Splits element [element] where
  flatten := by simp
  whole := by simpa using whole
  listed := by simpa using listed
  single := rfl

theorem whole_createOptPad {pad : Nat} (present : 0 < pad) (short : pad < 258) :
    Whole (createOptPad pad) := by
  match pad, present with
  | 1, _ => exact .pad1
  | pad + 2, _ =>
      have fits : (UInt8.ofNat pad).toNat = pad := by
        rw [UInt8.toNat_ofNat']
        omega
      exact .option 1 (UInt8.ofNat pad) _ (by decide) (by rw [List.length_replicate, fits]) rfl

theorem splits_createOptPad {pad : Nat} (present : 0 < pad) (short : pad < 258) :
    Splits (createOptPad pad) [createOptPad pad] := by
  have type := createOptPad_type pad
  exact splits_option (whole_createOptPad present short) (by omega)

def prefixOptions (mnpCount : Nat) : Nat → List PrefixListEntry → List (List UInt8)
  | _, [] => []
  | i, p :: rest =>
      mobNetPrefixOpt p ::
        ((if i + 1 < mnpCount then [createOptPad 4] else []) ++ prefixOptions mnpCount (i + 1) rest)

theorem flatten_prefixOptions (mnpCount i : Nat) (mnps : List PrefixListEntry) :
    (prefixOptions mnpCount i mnps).flatten = mobNetPrefixes mnpCount i mnps := by
  induction mnps generalizing i with
  | nil => rfl
  | cons p rest ih =>
      rw [prefixOptions, mobNetPrefixes, List.flatten_cons, List.flatten_append, ih]
      split
      · rw [List.flatten_cons, List.flatten_nil, List.append_nil]
      · rfl

theorem mem_prefixOptions {mnpCount i : Nat} {mnps : List PrefixListEntry} {option : List UInt8}
    (member : option ∈ prefixOptions mnpCount i mnps) :
    (∃ p, option = mobNetPrefixOpt p) ∨ option = createOptPad 4 := by
  induction mnps generalizing i with
  | nil => cases member
  | cons p rest ih =>
      rcases List.mem_cons.mp member with rfl | later
      · exact Or.inl ⟨p, rfl⟩
      · rcases List.mem_append.mp later with isPad | further
        · split at isPad
          · exact Or.inr (List.mem_singleton.mp isPad)
          · cases isPad
        · exact ih further

theorem splits_prefixes (mnp : PrefixListEntry) (mnps : List PrefixListEntry) :
    Splits (mhCreateOptMobNetPrefix (mnp :: mnps))
      (prefixOptions (mnp :: mnps).length 0 (mnp :: mnps)) where
  flatten := flatten_prefixOptions _ _ _
  whole := by
    intro option member
    rcases mem_prefixOptions member with ⟨p, rfl⟩ | rfl
    · exact .option 6 18 _ (by decide) (by simp [p.plePrefix.size]) rfl
    · exact whole_createOptPad (by decide) (by decide)
  listed := by
    intro option member
    rcases mem_prefixOptions member with ⟨p, rfl⟩ | rfl
    · have six : optType (mobNetPrefixOpt p) = 6 := rfl
      omega
    · decide
  single := by
    refine (List.filter_eq_nil_iff.mpr ?_).trans rfl
    intro type member
    obtain ⟨option, isOption, rfl⟩ := List.mem_map.mp member
    rcases mem_prefixOptions isOption with ⟨p, rfl⟩ | rfl
    · exact Bool.false_ne_true
    · decide

theorem MhOption.splits (order : ByteOrder) (option : MhOption) :
    ∃ options, Splits (option.bytes order) options := by
  cases option with
  | refreshAdvice interval =>
      have whole : Whole (mhCreateOptRefreshAdvice order interval) :=
        .option 2 2 _ (by decide) (store16_length order _) rfl
      exact ⟨_, splits_option whole ⟨Nat.le_of_ble_eq_true rfl, Nat.ne_of_beq_eq_false rfl⟩⟩
  | altcoa addr =>
      have whole : Whole (mhCreateOptAltcoa addr) := .option 3 16 _ (by decide) addr.size rfl
      exact ⟨_, splits_option whole ⟨Nat.le_of_ble_eq_true rfl, Nat.ne_of_beq_eq_false rfl⟩⟩
  | nonceIndex homeNonce coaNonce =>
      have whole : Whole (mhCreateOptNonceIndex order homeNonce coaNonce) :=
        .option 4 4 _ (by decide) (by simp) rfl
      exact ⟨_, splits_option whole ⟨Nat.le_of_ble_eq_true rfl, Nat.ne_of_beq_eq_false rfl⟩⟩
  | mobNetPrefix mnp mnps => exact ⟨_, splits_prefixes mnp mnps⟩

theorem splits_all {elements : List (List UInt8)}
    (each : ∀ element ∈ elements, ∃ options, Splits element options) :
    ∃ options : List (List UInt8), options.flatten = elements.flatten ∧
      (∀ option ∈ options, Whole option ∧ optType option ≤ 6 ∧ optType option ≠ 5) ∧
      (options.map optType).filter (fun type => Single type) =
        (elements.map optType).filter fun type => Single type := by
  induction elements with
  | nil => exact ⟨[], rfl, by simp, rfl⟩
  | cons element rest ih =>
      obtain ⟨first, splits⟩ := each element List.mem_cons_self
      obtain ⟨later, flatten, good, single⟩ := ih fun other member =>
        each other (List.mem_cons_of_mem _ member)
      refine ⟨first ++ later, ?_, ?_, ?_⟩
      · rw [List.flatten_append, List.flatten_cons, splits.flatten, flatten]
      · intro option member
        rcases List.mem_append.mp member with now | after
        · exact ⟨splits.whole option now, splits.listed option now⟩
        · exact good option after
      · rw [List.map_append, List.filter_append, splits.single, single, List.map_cons,
          List.filter_cons, List.filter_cons, List.filter_nil]
        split
        · rfl
        · rfl

/-! ## The message that is sent -/

theorem MhOption.optType_bytes (order : ByteOrder) (option : MhOption) :
    optType (option.bytes order) = option.type := by
  cases option with
  | refreshAdvice interval => rfl
  | altcoa addr => rfl
  | nonceIndex homeNonce coaNonce => rfl
  | mobNetPrefix mnp mnps => rfl

theorem padRule_isSome {option : List UInt8} (known : 2 ≤ optType option ∧ optType option ≤ 6) :
    (padRule option).isSome = true := by
  have types : optType option = 2 ∨ optType option = 3 ∨ optType option = 4 ∨
      optType option = 5 ∨ optType option = 6 := by omega
  rcases types with is | is | is | is | is <;> simp only [padRule, is] <;> rfl

theorem padRule_modulus {option : List UInt8} {alignment : AlignRule}
    (ruled : padRule option = some alignment) : alignment.modulus ≤ 8 := by
  simp only [padRule] at ruled
  split at ruled
  case h_6 => cases ruled
  all_goals
    cases ruled
    decide

def updateVec (order : ByteOrder) (fields : Octets 6) (options : List MhOption) :
    List (List UInt8) :=
  (Msgs.mhCreate 5 ++ fields.bytes) ::
    (options.map (MhOption.bytes order) ++ [mhCreateOptAuthData])

section Update
variable (order : ByteOrder) (fields : Octets 6) (options : List MhOption)

theorem MhOption.type_bounds (option : MhOption) :
    2 ≤ option.type ∧ option.type ≤ 6 ∧ option.type ≠ 5 := by
  cases option with
  | refreshAdvice interval => simp [MhOption.type]
  | altcoa addr => simp [MhOption.type]
  | nonceIndex homeNonce coaNonce => simp [MhOption.type]
  | mobNetPrefix mnp mnps => simp [MhOption.type]

theorem updateVec_types : ∀ element ∈ options.map (MhOption.bytes order) ++ [mhCreateOptAuthData],
    2 ≤ optType element ∧ optType element ≤ 6 := by
  intro element member
  rcases List.mem_append.mp member with isOption | isAuth
  · obtain ⟨option, _, rfl⟩ := List.mem_map.mp isOption
    rw [option.optType_bytes]
    exact ⟨option.type_bounds.1, option.type_bounds.2.1⟩
  · rw [List.mem_singleton.mp isAuth]
    decide

theorem mhTryPad_update :
    mhTryPad (updateVec order fields options) = (Msgs.mhCreate 5 ++ fields.bytes) ::
      padWith List.length padRule createOptPad (Msgs.mhCreate 5 ++ fields.bytes).length 0
        (options.map (MhOption.bytes order) ++ [mhCreateOptAuthData]) := by
  rw [updateVec]
  cases options with
  | nil => rfl
  | cons option rest => rfl

theorem padded_update :
    ∃ front, mhTryPad (updateVec order fields options) =
        (Msgs.mhCreate 5 ++ fields.bytes) :: (front ++ [mhCreateOptAuthData]) ∧
      (∀ element ∈ front, ∃ split, Splits element split) ∧
      (front.map optType).filter (fun type => Single type) =
        (options.map MhOption.type).filter fun type => Single type := by
  have types := updateVec_types order options
  obtain ⟨padded, isPadded, laid⟩ : ∃ padded, mhTryPad (updateVec order fields options) =
        (Msgs.mhCreate 5 ++ fields.bytes) :: padded ∧
      LaidOut List.length padRule createOptPad (Msgs.mhCreate 5 ++ fields.bytes).length
        (options.map (MhOption.bytes order) ++ [mhCreateOptAuthData]) padded :=
    ⟨_, mhTryPad_update order fields options,
      padWith_laidOut _ _ _ fun element member => padRule_isSome (types element member)⟩
  have ends := laid.getLast
  rw [List.getLast?_concat] at ends
  obtain ⟨front, rfl⟩ := List.getLast?_eq_some_iff.mp ends
  have kept := laid.kept (fun element => decide (optType element < 2))
    (fun n _ => decide_eq_true (createOptPad_type n))
    (fun element member => decide_eq_false (Nat.not_lt.mpr (types element member).1))
  rw [List.filter_append] at kept
  have frontKept : front.filter (fun element => !decide (optType element < 2)) =
      options.map (MhOption.bytes order) := List.append_cancel_right kept
  refine ⟨front, isPadded, fun element member => ?_, ?_⟩
  · by_cases isPad : optType element < 2
    · rcases laid.mem (List.mem_append_left _ member) with
        isBlock | ⟨n, _, _, alignment, ruled, pad⟩
      · exact absurd isPad (Nat.not_lt.mpr (types element isBlock).1)
      · obtain ⟨present, short, rfl⟩ := pad
        have coarse := padRule_modulus ruled
        exact ⟨_, splits_createOptPad present (by omega)⟩
    · have isOption : element ∈ options.map (MhOption.bytes order) := by
        rw [← frontKept, List.mem_filter]
        exact ⟨member, by simp [isPad]⟩
      obtain ⟨option, _, rfl⟩ := List.mem_map.mp isOption
      exact option.splits order
  · have sameTypes : options.map MhOption.type =
        (options.map (MhOption.bytes order)).map optType := by
      rw [List.map_map]
      exact List.map_congr_left fun option _ => (option.optType_bytes order).symm
    rw [sameTypes, ← frontKept, List.filter_map, List.filter_map, List.filter_filter]
    refine congrArg (List.map optType) (List.filter_congr fun element _ => ?_)
    by_cases single : Single (optType element)
    · have notPad : ¬ optType element < 2 := Nat.not_lt.mpr single.1
      simp [single, notPad]
    · simp [single]

end Update

section Sent
variable (hmac : Hmac) (coa cn : In6Addr) (key : Octets 20)

theorem calculateAuthData_length (iov : List (List UInt8)) :
    (calculateAuthData hmac iov coa cn key).length = 12 := by
  rw [calculateAuthData, List.length_take, Octets.size]
  rfl

theorem addAuthData_concat (front : List (List UInt8)) :
    addAuthData hmac coa cn key (front ++ [mhCreateOptAuthData]) =
      front ++ [5 :: 12 :: calculateAuthData hmac (front ++ [[5, 12]]) coa cn key] := by
  rw [addAuthData, List.getLast?_concat]
  simp only [List.dropLast_concat]
  rfl

/-- What `mh_send` sends: the digest stands for all the bytes before it. -/
theorem mhSend_update (order : ByteOrder) (fields : Octets 6) {options : List MhOption}
    (distinct : (options.map MhOption.type).Nodup) :
    ∃ fixed split digest, fixed.length = 12 ∧ digest.length = 12 ∧
      digest = calculateAuthData hmac [fixed ++ split.flatten ++ [5, 12]] coa cn key ∧
      (∀ option ∈ split, optType option ≠ 5) ∧ Acceptable (split ++ [5 :: 12 :: digest]) ∧
      mhSend hmac coa cn key (updateVec order fields options) =
        fixed ++ (split ++ [5 :: 12 :: digest]).flatten := by
  obtain ⟨front, padded, each, single⟩ := padded_update order fields options
  obtain ⟨split, flatten, good, splitSingle⟩ := splits_all each
  obtain ⟨fixed, isFixed, twelve⟩ : ∃ fixed, (Msgs.mhCreate 5 ++ fields.bytes).set 1
      (UInt8.ofNat (mhLength (mhTryPad (updateVec order fields options)) / 8) - 1) = fixed ∧
      fixed.length = 12 := ⟨_, rfl, by rw [List.length_set, List.length_append, fields.size]; rfl⟩
  have sent : mhSend hmac coa cn key (updateVec order fields options) =
      (addAuthData hmac coa cn key (fixed :: front ++ [mhCreateOptAuthData])).flatten := by
    rw [mhSend, ← isFixed]
    simp only [padded, setHdrlen, List.cons_append]
  have hashed : calculateAuthData hmac (fixed :: front ++ [[5, 12]]) coa cn key =
      calculateAuthData hmac [fixed ++ split.flatten ++ [5, 12]] coa cn key := by
    simp [calculateAuthData, flatten]
  have digestLength := calculateAuthData_length hmac coa cn key
    [fixed ++ split.flatten ++ [5, 12]]
  rw [sent, addAuthData_concat, hashed]
  refine ⟨fixed, split, _, twelve, digestLength, rfl, fun option member => (good option member).2.2,
    ?_, by simp [flatten]⟩
  generalize calculateAuthData hmac [fixed ++ split.flatten ++ [5, 12]] coa cn key = digest at *
  constructor
  · intro option member
    rcases List.mem_append.mp member with earlier | last
    · exact (good option earlier).1
    · rw [List.mem_singleton.mp last]
      exact .option 5 12 digest (by decide) digestLength rfl
  · intro option member
    rcases List.mem_append.mp member with earlier | last
    · exact (good option earlier).2.1
    · rw [List.mem_singleton.mp last]
      exact Nat.le_of_ble_eq_true rfl
  · have isFive : optType (5 :: 12 :: digest) = 5 := rfl
    rw [List.map_append, List.filter_append, splitSingle, single, List.map_cons, List.map_nil,
      isFive]
    refine List.nodup_append.mpr ⟨distinct.filter _, by decide, ?_⟩
    intro type member other isLast same
    obtain ⟨option, _, rfl⟩ := List.mem_map.mp (List.mem_of_mem_filter member)
    rw [List.mem_singleton.mp (List.mem_of_mem_filter isLast)] at same
    exact option.type_bounds.2.2 same
  · intro option member
    rw [List.dropLast_concat] at member
    exact (good option member).2.2

end Sent

theorem range_memory (first rest : List UInt8) :
    (List.range first.length).map (memory (first ++ rest)) = first := by
  have holds := ((holds_append _ 0 first rest).mp (memory_holds (first ++ rest))).1
  simpa using holds.read

section Received
variable {fixed digest : List UInt8} {split : List (List UInt8)}

theorem mhOpt_authData (acceptable : Acceptable (split ++ [5 :: 12 :: digest]))
    (notAuth : ∀ option ∈ split, optType option ≠ 5) (present : fixed ≠ []) :
    mhOpt (recordedOptions (memory (fixed ++ (split ++ [5 :: 12 :: digest]).flatten))
      (fixed ++ (split ++ [5 :: 12 :: digest]).flatten).length fixed.length) 5 =
        some (fixed.length + split.flatten.length) := by
  have holds := memory_options fixed (split ++ [5 :: 12 :: digest])
  have offsets := @offsets_message fixed _ acceptable.whole
  generalize memory (fixed ++ (split ++ [5 :: 12 :: digest]).flatten) = mh at *
  rw [mhOpt_recorded (List.length_pos_of_ne_nil present) (by decide), offsets, ofType,
    positions_append, List.filter_append]
  rw [List.flatten_append, holds_append] at holds
  have types := map_typeAt_positions
    (fun option member => acceptable.whole option (List.mem_append_left _ member)) holds.1
  have none : (positions fixed.length split).filter (fun i => decide (typeAt mh i = 5)) = [] := by
    apply List.filter_eq_nil_iff.mpr
    intro i member isFive
    have type : typeAt mh i ∈ split.map optType := by
      rw [← types]
      exact List.mem_map_of_mem member
    obtain ⟨option, isOption, same⟩ := List.mem_map.mp type
    exact notAuth option isOption (same.trans (of_decide_eq_true isFive))
  have last : typeAt mh (fixed.length + split.flatten.length) = 5 := congrArg UInt8.toNat holds.2.1
  rw [none, positions, positions, List.filter_cons, last]
  rfl

theorem verified {hmac : Hmac} {coa cn : In6Addr} {key : Octets 20} {front : List UInt8}
    (digestLength : digest.length = 12)
    (isDigest : digest = calculateAuthData hmac [front ++ [5, 12]] coa cn key) :
    mhVerifyAuthData hmac (memory ((front ++ [5, 12]) ++ digest))
        ((front ++ [5, 12]) ++ digest).length
      front.length coa cn key = true := by
  have atData := ((holds_append _ 0 (front ++ [5, 12]) digest).mp (memory_holds _)).2
  have atHeader := ((holds_append _ 0 front [5, 12]).mp
    ((holds_append _ 0 (front ++ [5, 12]) digest).mp (memory_holds _)).1).2
  have hashed := range_memory (front ++ [5, 12]) digest
  generalize memory ((front ++ [5, 12]) ++ digest) = mh at *
  rw [Nat.zero_add] at atHeader atData
  have moadLen : (mh (front.length + 1)).toNat = 12 := congrArg UInt8.toNat atHeader.2.1
  have data : (List.range 12).map (fun k => mh (front.length + 2 + k)) = digest := by
    have read := atData.read
    rw [digestLength, List.length_append] at read
    exact read
  simp only [mhVerifyAuthData, moadLen, data, List.length_append, digestLength, Nat.add_sub_cancel]
  rw [← List.length_append, hashed, ← isDigest]
  exact decide_eq_true (List.take_of_length_le (Nat.le_of_eq digestLength))

end Received

/-- Sender and verifier agree: an update is accepted, its authorization data is
found and is that of all the bytes before it. -/
theorem auth_data_agrees (hmac : Hmac) (order : ByteOrder) (fields : Octets 6)
    {options : List MhOption} (distinct : (options.map MhOption.type).Nodup) (key : Octets 20)
    (coa cn : In6Addr) :
    let sent := mhSend hmac coa cn key (updateVec order fields options)
    let covered := sent.take (sent.length - mipv6DigestLen)
    ∃ mhOpts bauth, mhOptParseRead sent 12 = .ok (some mhOpts) ∧
      mhOpt mhOpts 5 = some bauth ∧
      bauth + 2 + mipv6DigestLen = sent.length ∧
      mhVerifyAuthData hmac (memory sent) sent.length bauth coa cn key = true ∧
      sent =
        covered ++ (hmac key (coa.bytes ++ cn.bytes ++ covered)).bytes.take mipv6DigestLen := by
  obtain ⟨fixed, split, digest, twelve, digestLength, isDigest, notAuth, acceptable, isSent⟩ :=
    mhSend_update hmac coa cn key order fields distinct
  have present : fixed ≠ [] := by
    intro empty
    rw [empty] at twelve
    cases twelve
  have parsed := mhOptParseRead_acceptable acceptable present
  have found := mhOpt_authData acceptable notAuth present
  have behind : fixed ++ (split ++ [5 :: 12 :: digest]).flatten =
      (fixed ++ split.flatten ++ [5, 12]) ++ digest := by simp
  have right := @verified digest hmac coa cn key (fixed ++ split.flatten) digestLength isDigest
  rw [isSent]
  rw [twelve, behind] at parsed found
  have frontLength : (fixed ++ split.flatten).length = 12 + split.flatten.length := by
    rw [List.length_append, twelve]
  rw [frontLength] at right
  rw [behind]
  have covered : ((fixed ++ split.flatten ++ [5, 12]) ++ digest).take
      (((fixed ++ split.flatten ++ [5, 12]) ++ digest).length - mipv6DigestLen) =
        fixed ++ split.flatten ++ [5, 12] := by
    rw [List.length_append, digestLength, mipv6DigestLen, Nat.add_sub_cancel]
    exact List.take_left' rfl
  refine ⟨_, _, parsed, found, ?_, right, ?_⟩
  · rw [List.length_append, List.length_append, frontLength, digestLength]
    rfl
  · rw [covered]
    refine congrArg (_ ++ ·) (isDigest.trans ?_)
    simp [calculateAuthData]

/-- A nonce index and two prefixes, with a function that returns the key. -/
theorem auth_data_agrees_prefixes :
    let hmac : Hmac := fun key _ => key
    let mnp : PrefixListEntry := ⟨64, in6addrLoopback⟩
    let sent := mhSend hmac in6addrLoopback in6addrAny (Octets.zero 20)
      (updateVec .little (Octets.zero 6) [.nonceIndex 1 2, .mobNetPrefix mnp [mnp]])
    ∃ mhOpts bauth, mhOptParseRead sent 12 = .ok (some mhOpts) ∧ mhOpt mhOpts 5 = some bauth ∧
      mhVerifyAuthData hmac (memory sent) sent.length bauth in6addrLoopback in6addrAny
        (Octets.zero 20) = true := by
  intro hmac mnp sent
  obtain ⟨mhOpts, bauth, parsed, found, _, verified, _⟩ := auth_data_agrees hmac .little
    (Octets.zero 6) (by decide : ([.nonceIndex 1 2, .mobNetPrefix mnp [mnp]].map MhOption.type).Nodup)
    (Octets.zero 20) in6addrLoopback in6addrAny
  exact ⟨mhOpts, bauth, parsed, found, verified⟩

end OaiPmip.Mh
