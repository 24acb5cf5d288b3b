import OaiPmip.Lib.Loops
import OaiPmip.Lib.Records
import OaiPmip.Lib.Wire
import OaiPmip.Types

/-!
# Messages of the MIHF, pmip_odtone.c

A datagram lies in a buffer of `char`, which has a sign: the length of a TLV,
the low byte of the payload length and the number of links are read through it.
A read behind the received bytes is a fault, also where the buffer goes on.
-/

set_option autoImplicit false

namespace OaiPmip.Odtone

open OaiPmip.Loops OaiPmip.Records OaiPmip.Wire

inductive Fault where
  | unreceived
  | badPointer
  deriving DecidableEq

abbrev Datagram := List UInt8

def byteAt (str : Datagram) (i : Int) : UInt8 := str.getD i.toNat 0

def Received (str : Datagram) (i : Int) : Prop := 0 ≤ i ∧ i < str.length

instance (str : Datagram) (i : Int) : Decidable (Received str i) :=
  inferInstanceAs (Decidable (_ ∧ _))

def readByte (str : Datagram) (i : Int) : Except Fault UInt8 :=
  if Received str i then .ok (byteAt str i) else .error .unreceived

/-- A `char` as an `int`. -/
def charValue (byte : UInt8) : Int := byte.toInt8.toInt

def bytesAt (str : Datagram) (i : Int) (n : Nat) : List UInt8 :=
  (List.range n).map fun k => byteAt str (i + k)

/-- `memcpy` of `n` bytes. -/
def readBytes (str : Datagram) (i : Int) (n : Nat) : Except Fault (List UInt8) :=
  if n = 0 ∨ (0 ≤ i ∧ i + n ≤ str.length) then .ok (bytesAt str i n) else .error .unreceived

/-- `sizeof(MIH_C_Header)`. -/
def sizeofHeader : Int := 8

def tlvAddrList : UInt8 := 9

def tlvOldAccessRouter : UInt8 := 15

def tlvNewAccessRouter : UInt8 := 16

def isAddrList (type : UInt8) : Bool := type = tlvAddrList

def isAccessRouter (type : UInt8) : Bool := type = tlvNewAccessRouter || type = tlvOldAccessRouter

/-- `str[6]<<8 | str[7]`, kept in a `uint16_t`. -/
def payloadLength (high low : UInt8) : UInt16 :=
  high.toUInt16 <<< 8 ||| low.toInt8.toInt16.toUInt16

def turn (wanted : UInt8 → Bool) (str : Datagram) (bound : Int) (i : Int) :
    Except Fault (Turn Int (Option Int)) :=
  if i < bound then do
    let type ← readByte str i
    if wanted type then return .done (some i)
    else
      let length ← readByte str (i + 1)
      return .again (i + 1 + charValue length + 1)
  else return .done none

def walk (wanted : UInt8 → Bool) (str : Datagram) (fuel : Nat) :
    Option (Except Fault (Option Int)) :=
  match readByte str 6, readByte str 7 with
  | .ok high, .ok low =>
      loop (turn wanted str (payloadLength high low).toNat) fuel sizeofHeader
  | _, _ => some (.error .unreceived)

/-- What `macaddress` points to before a message is decoded. -/
inductive Dangling where
  | uninitialised
  | freed
  deriving DecidableEq

inductive MacPointer where
  | dangling (kind : Dangling)
  | allocated (bytes : List UInt8)
  deriving DecidableEq

/-- The address of an access router behind its TLV at `i`. -/
def copyAddress (str : Datagram) (i : Int) : Except Fault (Int × MacPointer) := do
  let addressSize ← readByte str (i + 5)
  let mac ← readBytes str (i + 6) addressSize.toNat
  return ((addressSize.toNat : Int), .allocated mac)

def decodeLinkEventIndication (str : Datagram) (mobileNodeMac : Dangling) (fuel : Nat) :
    Option (Except Fault (Int × MacPointer)) :=
  (walk isAccessRouter str fuel).map fun outcome =>
    match outcome with
    | .ok (some i) => copyAddress str i
    | .ok none => .ok (-1, .dangling mobileNodeMac)
    | .error fault => .error fault

/-- The loop of `check_if_cap_discovery_matches_conffile_listenInterface` with the
number of turns that are left. -/
def matchLinks (str : Datagram) (linkMacAddress : Octets 6) : Nat → Int → Except Fault Int
  | 0, _ => .ok 0
  | turns + 1, index => do
      let mac ← readBytes str (index + 9) 6
      if mac = linkMacAddress.bytes then return 1
      else matchLinks str linkMacAddress turns (index + 9 + 5)

def linkTurns (numberOfElements : Int) : Nat := max 1 numberOfElements.toNat

def matchesListenInterface (str : Datagram) (linkMacAddress : Octets 6) (index : Int) :
    Except Fault Int := do
  let numberOfElements ← readByte str (index + 2)
  matchLinks str linkMacAddress (linkTurns (charValue numberOfElements)) (index + 2)

def decodeCapabilityDiscoverResponse (str : Datagram) (linkMacAddress : Octets 6)
    (fuel : Nat) : Option (Except Fault Int) :=
  (walk isAddrList str fuel).map fun outcome =>
    match outcome with
    | .ok (some i) => matchesListenInterface str linkMacAddress i
    | .ok none => .ok (-1)
    | .error fault => .error fault

/-! ## What is announced -/

section Announced
variable (wanted : UInt8 → Bool) (str : Datagram)

def announced : Nat := (byteAt str 6).toNat * 256 + (byteAt str 7).toNat

def tlvFraming : Framing where
  size := fun i => 2 + (byteAt str (i + 1)).toNat
  pos := fun i => by omega

def tlvs : List Nat := (tlvFraming str).offsets 8 (8 + announced str)

def WellFormed : Prop :=
  8 + announced str ≤ str.length ∧
    ∀ i ∈ tlvs str, i + (tlvFraming str).size i ≤ 8 + announced str

instance : Decidable (WellFormed str) := inferInstanceAs (Decidable (_ ∧ _))

def expected : Option Nat :=
  if WellFormed str then (tlvs str).find? fun i => wanted (byteAt str i) else none

def Finds (fuel : Nat) : Prop :=
  walk wanted str fuel = some (.ok ((expected wanted str).map Int.ofNat))

def LinkEventDecoded (mobileNodeMac : Dangling) : Prop :=
  ∃ fuel result pointer, Finds isAccessRouter str fuel ∧
    decodeLinkEventIndication str mobileNodeMac fuel = some (.ok (result, pointer)) ∧
    (expected isAccessRouter str = none → result = -1) ∧ ∀ kind, pointer ≠ .dangling kind

def CapabilityDecoded (linkMacAddress : Octets 6) : Prop :=
  ∃ fuel result, Finds isAddrList str fuel ∧
    decodeCapabilityDiscoverResponse str linkMacAddress fuel = some (.ok result) ∧
    (result = -1 ↔ expected isAddrList str = none)

def bound : Int := (payloadLength (byteAt str 6) (byteAt str 7)).toNat

/-- An offset with another type, and the one that its length leads to when it is
read with a sign. -/
structure Passes (i j : Int) : Prop where
  before : i < bound str
  received : 0 ≤ i ∧ i + 1 < str.length
  other : wanted (byteAt str i) = false
  next : j = i + 2 + charValue (byteAt str (i + 1))

def Reaches : Int → Prop := Relation.ReflTransGen (Passes wanted str) sizeofHeader

/-- The address of an access router at `t` was received. -/
def AddressReceived (t : Int) : Prop :=
  t + 6 + (byteAt str (t + 5)).toNat ≤ str.length

def linkAt (index : Int) (k : Nat) : List UInt8 := bytesAt str (index + 9 + 14 * k) 6

def LinksReceived (linkMacAddress : Octets 6) (turns : Nat) (index : Int) : Prop :=
  ∀ k, k < turns → (∀ j, j < k → linkAt str index j ≠ linkMacAddress.bytes) →
    index + 9 + 14 * k + 6 ≤ str.length

def LinkEventReached : Prop :=
  ∃ t, expected isAccessRouter str = some t ∧ (t : Int) < bound str ∧
    Reaches isAccessRouter str t ∧ AddressReceived str t

structure CapabilityReached (linkMacAddress : Octets 6) : Prop where
  header : 8 ≤ str.length
  list : ∀ t, expected isAddrList str = some t → (t : Int) < bound str ∧
    Reaches isAddrList str t ∧
    LinksReceived str linkMacAddress (linkTurns (charValue (byteAt str (t + 2)))) (t + 2)
  ends : expected isAddrList str = none → ∃ i, bound str ≤ i ∧ Reaches isAddrList str i

end Announced

section Walk
variable {wanted : UInt8 → Bool} {str : Datagram} {i : Int}

theorem readByte_received (received : Received str i) : readByte str i = .ok (byteAt str i) :=
  if_pos received

theorem turn_behind (behind : bound str ≤ i) :
    turn wanted str (bound str) i = .ok (.done none) :=
  if_neg (Int.not_lt.mpr behind)

theorem turn_wanted (before : i < bound str) (received : Received str i)
    (isWanted : wanted (byteAt str i) = true) :
    turn wanted str (bound str) i = .ok (.done (some i)) := by
  rw [turn, if_pos before, readByte_received received]
  exact if_pos isWanted

theorem turn_other (before : i < bound str) (received : Received str i)
    (other : wanted (byteAt str i) = false) :
    turn wanted str (bound str) i = (do
      let length ← readByte str (i + 1)
      return .again (i + 1 + charValue length + 1)) := by
  rw [turn, if_pos before, readByte_received received]
  exact if_neg (ne_true_of_eq_false other)

theorem turn_unreceived (before : i < bound str) (unreceived : ¬Received str i) :
    turn wanted str (bound str) i = .error .unreceived := by
  rw [turn, if_pos before, readByte, if_neg unreceived]
  rfl

theorem Passes.turn {j : Int} (passes : Passes wanted str i j) :
    Odtone.turn wanted str (bound str) i = .ok (.again j) := by
  obtain ⟨before, received, other, rfl⟩ := passes
  have hasType : Received str i := ⟨received.1, by omega⟩
  have hasLength : Received str (i + 1) := ⟨by omega, received.2⟩
  have next : i + 1 + charValue (byteAt str (i + 1)) + 1 =
      i + 2 + charValue (byteAt str (i + 1)) := by omega
  rw [turn_other before hasType other, readByte_received hasLength, ← next]
  rfl

theorem turn_cases {outcome : Turn Int (Option Int)}
    (taken : turn wanted str (bound str) i = .ok outcome) :
    (outcome = .done none ∧ bound str ≤ i) ∨
      (outcome = .done (some i) ∧ i < bound str ∧ Received str i ∧
        wanted (byteAt str i) = true) ∨
      ∃ j, outcome = .again j ∧ Passes wanted str i j := by
  by_cases before : i < bound str
  · by_cases received : Received str i
    · cases isWanted : wanted (byteAt str i) with
      | true =>
          rw [turn_wanted before received isWanted] at taken
          cases taken
          exact .inr (.inl ⟨rfl, before, received, rfl⟩)
      | false =>
          rw [turn_other before received isWanted] at taken
          by_cases hasLength : Received str (i + 1)
          · rw [readByte_received hasLength] at taken
            cases taken
            refine .inr (.inr ⟨_, rfl, before, ⟨received.1, hasLength.2⟩, isWanted, ?_⟩)
            omega
          · rw [readByte, if_neg hasLength] at taken
            cases taken
    · rw [turn_unreceived before received] at taken
      cases taken
  · rw [turn_behind (Int.not_lt.mp before)] at taken
    cases taken
    exact .inl ⟨rfl, Int.not_lt.mp before⟩

theorem turn_again_iff {j : Int} :
    turn wanted str (bound str) i = .ok (.again j) ↔ Passes wanted str i j := by
  constructor
  · intro taken
    rcases turn_cases taken with ⟨same, -⟩ | ⟨same, -⟩ | ⟨k, same, passes⟩
    · cases same
    · cases same
    · cases same
      exact passes
  · exact Passes.turn

theorem ends_iff {found : Option Int} :
    Ends (turn wanted str (bound str)) sizeofHeader (.ok found) ↔
      ∃ last, Reaches wanted str last ∧
        ((found = none ∧ bound str ≤ last) ∨
          (found = some last ∧ last < bound str ∧ Received str last ∧
            wanted (byteAt str last) = true)) := by
  have chain : ∀ last, Relation.ReflTransGen (fun s next =>
      turn wanted str (bound str) s = .ok (.again next)) sizeofHeader last ↔
      Reaches wanted str last := by
    intro last
    simp only [turn_again_iff, Reaches]
  rw [ends_iff_reaches]
  constructor
  · intro ends
    obtain ⟨last, reached, taken⟩ := ends
    refine ⟨last, (chain last).mp reached, ?_⟩
    rcases turn_cases taken with ⟨same, behind⟩ | ⟨same, here⟩ | ⟨_, same, -⟩
    · cases same
      exact .inl ⟨rfl, behind⟩
    · cases same
      exact .inr ⟨rfl, here⟩
    · cases same
  · intro ends
    obtain ⟨last, reached, ⟨rfl, behind⟩ | ⟨rfl, before, received, isWanted⟩⟩ := ends
    · exact ⟨last, (chain last).mpr reached, turn_behind behind⟩
    · exact ⟨last, (chain last).mpr reached, turn_wanted before received isWanted⟩

theorem walk_ok {fuel : Nat} {found : Option Int} :
    walk wanted str fuel = some (.ok found) ↔ 8 ≤ str.length ∧
      loop (turn wanted str (bound str)) fuel sizeofHeader = some (.ok found) := by
  by_cases header : 8 ≤ str.length
  · have six : readByte str 6 = .ok (byteAt str 6) := readByte_received ⟨by decide, by omega⟩
    have seven : readByte str 7 = .ok (byteAt str 7) := readByte_received ⟨by decide, by omega⟩
    simp only [walk, six, seven, header, true_and, bound]
  · have seven : readByte str 7 = .error .unreceived := if_neg fun received => by
      have last := received.2
      omega
    simp only [walk, seven, header, false_and, iff_false]
    split
    · rename_i impossible
      cases impossible
    · simp

end Walk

/-! ## Both decoders -/

section Decoders
variable {wanted : UInt8 → Bool} {str : Datagram} {linkMacAddress : Octets 6}

theorem expected_found {t : Nat} (isExpected : expected wanted str = some t) :
    8 ≤ str.length ∧ Received str t ∧ wanted (byteAt str t) = true := by
  simp only [expected] at isExpected
  split at isExpected
  · rename_i wellFormed
    obtain ⟨fits, -⟩ := wellFormed
    have range := (tlvFraming str).offsets_range t (List.mem_of_find?_eq_some isExpected)
    have isWanted := List.find?_some isExpected
    exact ⟨by omega, ⟨by omega, by omega⟩, isWanted⟩
  · cases isExpected

theorem finds_iff : (∃ fuel, Finds wanted str fuel) ↔ 8 ≤ str.length ∧
    (∀ t, expected wanted str = some t → (t : Int) < bound str ∧ Reaches wanted str t) ∧
    (expected wanted str = none → ∃ i, bound str ≤ i ∧ Reaches wanted str i) := by
  have split : (∃ fuel, Finds wanted str fuel) ↔ 8 ≤ str.length ∧
      Ends (turn wanted str (bound str)) sizeofHeader
        (.ok ((expected wanted str).map Int.ofNat)) := by
    simp only [Finds, walk_ok, Ends, exists_and_left]
  rw [split, ends_iff]
  refine and_congr_right fun _ => ?_
  cases isExpected : expected wanted str with
  | none =>
      constructor
      · intro ends
        obtain ⟨last, reached, ⟨-, behind⟩ | ⟨impossible, -⟩⟩ := ends
        · exact ⟨fun t some_ => (nomatch some_), fun _ => ⟨last, behind, reached⟩⟩
        · cases impossible
      · intro ends
        obtain ⟨last, behind, reached⟩ := ends.2 rfl
        exact ⟨last, reached, .inl ⟨rfl, behind⟩⟩
  | some t =>
      obtain ⟨-, received, isWanted⟩ := expected_found isExpected
      constructor
      · intro ends
        obtain ⟨last, reached, ⟨impossible, -⟩ | ⟨same, before, -⟩⟩ := ends
        · cases impossible
        · cases same
          refine ⟨?_, fun none_ => nomatch none_⟩
          intro other same
          cases same
          exact ⟨before, reached⟩
      · intro ends
        obtain ⟨before, reached⟩ := ends.1 t rfl
        exact ⟨t, reached, .inr ⟨rfl, before, received, isWanted⟩⟩

theorem copyAddress_ok {i : Int} (positive : 0 ≤ i) {outcome : Int × MacPointer} :
    copyAddress str i = .ok outcome ↔ AddressReceived str i ∧
      outcome = (((byteAt str (i + 5)).toNat : Int),
        .allocated (bytesAt str (i + 6) (byteAt str (i + 5)).toNat)) := by
  simp only [AddressReceived]
  by_cases sized : Received str (i + 5)
  · have size := readByte_received sized
    have last := sized.2
    by_cases fits : i + 6 + (byteAt str (i + 5)).toNat ≤ str.length
    · have copied : readBytes str (i + 6) (byteAt str (i + 5)).toNat =
          .ok (bytesAt str (i + 6) (byteAt str (i + 5)).toNat) :=
        if_pos (Or.inr ⟨by omega, fits⟩)
      have done_ : copyAddress str i = .ok (((byteAt str (i + 5)).toNat : Int),
          .allocated (bytesAt str (i + 6) (byteAt str (i + 5)).toNat)) := by
        rw [copyAddress, size]
        change readBytes str (i + 6) (byteAt str (i + 5)).toNat >>= _ = _
        rw [copied]
        rfl
      rw [done_, Except.ok.injEq]
      exact ⟨fun same => ⟨fits, same.symm⟩, fun same => same.2.symm⟩
    · have cut : readBytes str (i + 6) (byteAt str (i + 5)).toNat = .error .unreceived := by
        refine if_neg ?_
        intro either
        rcases either with none_ | inside
        · omega
        · exact fits inside.2
      have faults : copyAddress str i = .error .unreceived := by
        rw [copyAddress, size]
        change readBytes str (i + 6) (byteAt str (i + 5)).toNat >>= _ = _
        rw [cut]
        rfl
      rw [faults]
      simp [fits]
  · have faults : copyAddress str i = .error .unreceived := by
      rw [copyAddress, readByte, if_neg sized]
      rfl
    have fits : ¬i + 6 + (byteAt str (i + 5)).toNat ≤ str.length := by
      intro fits
      exact sized ⟨by omega, by omega⟩
    rw [faults]
    simp [fits]

theorem link_event_iff (mobileNodeMac : Dangling) :
    LinkEventDecoded str mobileNodeMac ↔ LinkEventReached str := by
  constructor
  · intro decoded
    obtain ⟨fuel, result, pointer, finds, decodes, -, fresh⟩ := decoded
    obtain ⟨-, reach, -⟩ := finds_iff.mp ⟨fuel, finds⟩
    rw [Finds] at finds
    simp only [decodeLinkEventIndication, finds, Option.map_some, Option.some.injEq] at decodes
    cases isExpected : expected isAccessRouter str with
    | none =>
        rw [isExpected] at decodes
        cases decodes
        exact absurd rfl (fresh mobileNodeMac)
    | some t =>
        rw [isExpected] at decodes
        obtain ⟨before, reached⟩ := reach t isExpected
        have received := ((copyAddress_ok (Int.natCast_nonneg t)).mp decodes).1
        exact ⟨t, isExpected, before, reached, received⟩
  · intro reached
    obtain ⟨t, isExpected, before, reached, received⟩ := reached
    obtain ⟨header, -, -⟩ := expected_found isExpected
    have found : ∃ fuel, Finds isAccessRouter str fuel := by
      refine finds_iff.mpr ⟨header, ?_, ?_⟩
      · intro other same
        cases isExpected.symm.trans same
        exact ⟨before, reached⟩
      · intro none_
        cases isExpected.symm.trans none_
    obtain ⟨fuel, finds⟩ := found
    have decodes : decodeLinkEventIndication str mobileNodeMac fuel =
        some (copyAddress str t) := by
      rw [Finds] at finds
      rw [decodeLinkEventIndication, finds, isExpected]
      rfl
    rw [(copyAddress_ok (Int.natCast_nonneg t)).mpr ⟨received, rfl⟩] at decodes
    refine ⟨fuel, _, _, finds, decodes, fun none_ => absurd none_ (by simp [isExpected]), ?_⟩
    intro kind same
    cases same

theorem linkAt_succ (index : Int) (k : Nat) :
    linkAt str index (k + 1) = linkAt str (index + 9 + 5) k := by
  have place : index + 9 + 14 * ((k + 1 : Nat) : Int) = index + 9 + 5 + 9 + 14 * (k : Int) := by
    omega
  rw [linkAt, linkAt, place]

theorem linksReceived_succ {turns : Nat} {index : Int} :
    LinksReceived str linkMacAddress (turns + 1) index ↔ index + 9 + 6 ≤ str.length ∧
      (bytesAt str (index + 9) 6 ≠ linkMacAddress.bytes →
        LinksReceived str linkMacAddress turns (index + 9 + 5)) := by
  have first : linkAt str index 0 = bytesAt str (index + 9) 6 := by
    simp [linkAt]
  constructor
  · intro received
    have here := received 0 (Nat.zero_lt_succ _) (fun j none_ => absurd none_ (Nat.not_lt_zero j))
    refine ⟨by omega, ?_⟩
    intro other k small before
    have later := received (k + 1) (Nat.succ_lt_succ small) (by
      intro j earlier
      cases j with
      | zero => rw [first]; exact other
      | succ j =>
          rw [linkAt_succ]
          exact before j (Nat.lt_of_succ_lt_succ earlier))
    push_cast at later
    omega
  · intro received
    obtain ⟨here, rest⟩ := received
    intro k small before
    cases k with
    | zero =>
        simp only [Int.natCast_zero, Int.mul_zero]
        omega
    | succ k =>
        have other : bytesAt str (index + 9) 6 ≠ linkMacAddress.bytes := by
          rw [← first]
          exact before 0 (Nat.zero_lt_succ _)
        have later := rest other k (Nat.lt_of_succ_lt_succ small) (by
          intro j earlier
          rw [← linkAt_succ]
          exact before (j + 1) (Nat.succ_lt_succ earlier))
        push_cast
        omega

theorem matchLinks_ok (turns : Nat) : ∀ {index : Int}, 0 ≤ index →
    ((∃ result, matchLinks str linkMacAddress turns index = .ok result) ↔
      LinksReceived str linkMacAddress turns index) := by
  induction turns with
  | zero =>
      intro index _
      exact ⟨fun _ k none_ => absurd none_ (Nat.not_lt_zero k), fun _ => ⟨0, rfl⟩⟩
  | succ turns ih =>
      intro index positive
      rw [linksReceived_succ]
      by_cases fits : index + 9 + 6 ≤ str.length
      · have copied : readBytes str (index + 9) 6 = .ok (bytesAt str (index + 9) 6) :=
          if_pos (Or.inr ⟨by omega, fits⟩)
        have turn_ : matchLinks str linkMacAddress (turns + 1) index =
            if bytesAt str (index + 9) 6 = linkMacAddress.bytes then .ok 1
            else matchLinks str linkMacAddress turns (index + 9 + 5) := by
          rw [matchLinks, copied]
          rfl
        rw [turn_]
        by_cases same : bytesAt str (index + 9) 6 = linkMacAddress.bytes
        · simp [same, fits]
        · rw [if_neg same, ih (by omega)]
          exact ⟨fun rest => ⟨fits, fun _ => rest⟩, fun both => both.2 same⟩
      · have faults : matchLinks str linkMacAddress (turns + 1) index = .error .unreceived := by
          rw [matchLinks, readBytes, if_neg (by omega)]
          rfl
        simp [faults, fits]

theorem matchLinks_ne (turns : Nat) : ∀ {index result : Int},
    matchLinks str linkMacAddress turns index = .ok result → result ≠ -1 := by
  induction turns with
  | zero =>
      intro index result matched
      cases matched
      decide
  | succ turns ih =>
      intro index result matched
      rw [matchLinks] at matched
      cases copied : readBytes str (index + 9) 6 with
      | error fault =>
          rw [copied] at matched
          cases matched
      | ok mac =>
          rw [copied] at matched
          by_cases same : mac = linkMacAddress.bytes
          · have isOne := (if_pos same).symm.trans matched
            cases isOne
            decide
          · exact ih ((if_neg same).symm.trans matched)

theorem linkTurns_pos (numberOfElements : Int) : 0 < linkTurns numberOfElements :=
  Nat.lt_of_lt_of_le (by decide) (Nat.le_max_left 1 _)

theorem matchesListenInterface_ok {t : Nat} :
    (∃ result, matchesListenInterface str linkMacAddress t = .ok result) ↔
      LinksReceived str linkMacAddress (linkTurns (charValue (byteAt str (t + 2)))) (t + 2) := by
  by_cases count : Received str (t + 2)
  · have looked : matchesListenInterface str linkMacAddress t = matchLinks str linkMacAddress
        (linkTurns (charValue (byteAt str (t + 2)))) (t + 2) := by
      rw [matchesListenInterface, readByte_received count]
      rfl
    rw [looked, matchLinks_ok _ (by omega)]
  · have faults : matchesListenInterface str linkMacAddress t = .error .unreceived := by
      rw [matchesListenInterface, readByte, if_neg count]
      rfl
    refine ⟨fun ok => ?_, fun received => ?_⟩
    · obtain ⟨result, ok⟩ := ok
      cases faults.symm.trans ok
    · have first := received 0 (linkTurns_pos _) (fun j none_ => absurd none_ (Nat.not_lt_zero j))
      exact absurd ⟨by omega, by omega⟩ count

theorem matchesListenInterface_ne {t result : Int}
    (matched : matchesListenInterface str linkMacAddress t = .ok result) : result ≠ -1 := by
  rw [matchesListenInterface] at matched
  cases count : readByte str (t + 2) with
  | error fault =>
      rw [count] at matched
      cases matched
  | ok byte =>
      rw [count] at matched
      exact matchLinks_ne _ matched

theorem capability_iff :
    CapabilityDecoded str linkMacAddress ↔ CapabilityReached str linkMacAddress := by
  constructor
  · intro decoded
    obtain ⟨fuel, result, finds, decodes, -⟩ := decoded
    obtain ⟨header, reach, stops⟩ := finds_iff.mp ⟨fuel, finds⟩
    refine ⟨header, ?_, stops⟩
    intro t isExpected
    rw [Finds, isExpected] at finds
    simp only [decodeCapabilityDiscoverResponse, finds, Option.map_some, Option.some.injEq]
      at decodes
    obtain ⟨before, reached⟩ := reach t isExpected
    exact ⟨before, reached, matchesListenInterface_ok.mp ⟨result, decodes⟩⟩
  · intro reached
    obtain ⟨header, list, ends⟩ := reached
    obtain ⟨fuel, finds⟩ := finds_iff.mpr
      ⟨header, fun t isExpected => ⟨(list t isExpected).1, (list t isExpected).2.1⟩, ends⟩
    have found := finds
    rw [Finds] at found
    cases isExpected : expected isAddrList str with
    | none =>
        refine ⟨fuel, -1, finds, ?_, by simp [isExpected]⟩
        rw [decodeCapabilityDiscoverResponse, found, isExpected]
        rfl
    | some t =>
        obtain ⟨result, matched⟩ := matchesListenInterface_ok.mpr (list t isExpected).2.2
        refine ⟨fuel, result, finds, ?_, by simp [isExpected, matchesListenInterface_ne matched]⟩
        rw [decodeCapabilityDiscoverResponse, found, isExpected]
        exact congrArg some matched

/-- When the decoders do what is expected of them; the conditions are about the
bytes of the datagram only. -/
theorem tlv_walk_iff (str : Datagram) (mobileNodeMac : Dangling) (linkMacAddress : Octets 6) :
    (LinkEventDecoded str mobileNodeMac ↔ LinkEventReached str) ∧
      (CapabilityDecoded str linkMacAddress ↔ CapabilityReached str linkMacAddress) :=
  ⟨link_event_iff mobileNodeMac, capability_iff⟩

end Decoders

section Lengths
variable {wanted : UInt8 → Bool} {str : Datagram}

theorem charValue_low {byte : UInt8} (low : byte < 128) : charValue byte = byte.toNat := by
  have small : byte.toNat < 128 := low
  change byte.toBitVec.toInt = _
  rw [BitVec.toInt_eq_toNat_cond]
  exact if_pos (by change 2 * byte.toNat < 256; omega)

theorem signExtended (byte : UInt8) : byte.toInt8.toInt16.toUInt16.toNat =
    if byte < 128 then byte.toNat else 65280 + byte.toNat := by
  have size := byte.toNat_lt
  change (byte.toBitVec.signExtend 16).toNat = _
  rw [BitVec.toNat_signExtend, BitVec.msb_eq_decide, BitVec.toNat_setWidth]
  change (byte.toNat % 2 ^ 16 +
    if decide (2 ^ (8 - 1) ≤ byte.toNat) = true then 2 ^ 16 - 2 ^ 8 else 0) = _
  by_cases low : byte < 128
  · have isLow : ¬2 ^ (8 - 1) ≤ byte.toNat := Nat.not_le.mpr low
    rw [if_pos low, if_neg (by simpa using isLow)]
    omega
  · have isHigh : 2 ^ (8 - 1) ≤ byte.toNat := Nat.not_lt.mp low
    rw [if_neg low, if_pos (by simpa using isHigh)]
    omega

theorem payloadLength_eq (high low : UInt8) : (payloadLength high low).toNat =
    if low < 128 then high.toNat * 256 + low.toNat else 65280 + low.toNat := by
  have isHigh := high.toNat_lt
  have isLow := low.toNat_lt
  have shifted : high.toNat <<< 8 % 2 ^ 16 = high.toNat <<< 8 := by
    rw [Nat.shiftLeft_eq]
    omega
  change high.toNat <<< 8 % 2 ^ 16 ||| low.toInt8.toInt16.toUInt16.toNat = _
  rw [shifted, signExtended]
  by_cases small : low < 128
  · rw [if_pos small, if_pos small, Nat.or_comm, lor_shiftLeft isLow]
    omega
  · have ones : 255 <<< 8 ||| low.toNat = 65280 + low.toNat := by
      rw [Nat.or_comm, lor_shiftLeft isLow]
      omega
    have atMost : high.toNat ||| 255 < 2 ^ 8 := Nat.or_lt_two_pow isHigh (by decide)
    have atLeast : 255 ≤ high.toNat ||| 255 := Nat.right_le_or
    have full : high.toNat ||| 255 = 255 := by omega
    rw [if_neg small, if_neg small, ← ones, ← Nat.or_assoc, ← Nat.shiftLeft_or_distrib, full]

theorem bound_eq : bound str =
    if byteAt str 7 < 128 then (announced str : Int) else 65280 + (byteAt str 7).toNat := by
  rw [bound, payloadLength_eq]
  split
  · rfl
  · push_cast
    rfl

theorem reaches_of_low {stop : Nat} (start : Nat) {t : Nat}
    (isTlv : t ∈ (tlvFraming str).offsets start stop)
    (passes : ∀ i ∈ (tlvFraming str).offsets start stop, i < t →
      (i : Int) < bound str ∧ i + 1 < str.length ∧ wanted (byteAt str i) = false ∧
        byteAt str (i + 1) < 128) :
    Relation.ReflTransGen (Passes wanted str) start t := by
  induction start using (tlvFraming str).offsets_induction stop with
  | ends i outside =>
      rw [Framing.offsets_nil _ outside] at isTlv
      exact absurd isTlv List.not_mem_nil
  | record i inside ih =>
      rw [Framing.offsets_cons _ inside] at isTlv passes
      rcases List.mem_cons.mp isTlv with rfl | later
      · exact .refl
      · have after := ((tlvFraming str).offsets_range t later).1
        have advances := (tlvFraming str).pos i
        obtain ⟨before, received, other, low⟩ := passes i List.mem_cons_self (by omega)
        have step : Passes wanted str i (i + (tlvFraming str).size i : Nat) := by
          refine ⟨before, ⟨by omega, by omega⟩, other, ?_⟩
          rw [charValue_low low]
          simp only [tlvFraming]
          push_cast
          omega
        exact .head step (ih later fun j member => passes j (List.mem_cons_of_mem i member))

theorem find?_before {offsets : List Nat} (increasing : offsets.Pairwise (· < ·))
    {p : Nat → Bool} {t : Nat} (found : offsets.find? p = some t) {i : Nat} (member : i ∈ offsets)
    (earlier : i < t) : p i = false := by
  obtain ⟨-, before, after, rfl, none_⟩ := List.find?_eq_some_iff_append.mp found
  rcases List.mem_append.mp member with front | back
  · simpa using none_ i front
  · rcases List.mem_cons.mp back with rfl | behind
    · exact absurd earlier (Nat.lt_irrefl _)
    · have later := List.rel_of_pairwise_cons (List.pairwise_append.mp increasing).2.1 behind
      omega

theorem link_event_low {t : Nat} (isExpected : expected isAccessRouter str = some t)
    (before : ∀ i ∈ tlvs str, i < t → byteAt str (i + 1) < 128) (within : (t : Int) < bound str)
    (received : AddressReceived str t) (mobileNodeMac : Dangling) :
    LinkEventDecoded str mobileNodeMac := by
  refine (link_event_iff mobileNodeMac).mpr ⟨t, isExpected, within, ?_, received⟩
  simp only [expected] at isExpected
  split at isExpected
  · rename_i wellFormed
    obtain ⟨fits, ends⟩ := wellFormed
    refine reaches_of_low 8 (List.mem_of_find?_eq_some isExpected) ?_
    intro i member earlier
    have last := ends i member
    have size : (tlvFraming str).size i = 2 + (byteAt str (i + 1)).toNat := rfl
    exact ⟨by omega, by omega, find?_before (tlvFraming str).offsets_increasing isExpected member
      earlier, before i member earlier⟩
  · cases isExpected

end Lengths

/-- `MIH_SERVICE_INDICATION_LINK_UP` and the other messages that are told apart. -/
inductive MessageId where
  | capDiscConf
  | evtSubConf
  | linkUp
  | linkDown
  | unknown
  deriving DecidableEq

def messageId (id : UInt16) : MessageId :=
  if id = 4097 then .capDiscConf
  else if id = 4100 then .evtSubConf
  else if id = 11266 then .linkUp
  else if id = 11267 then .linkDown
  else .unknown

inductive Handled where
  | nothing
  | subscribe
  | associate (mac : List UInt8)
  | deassociate (mac : List UInt8)

/-- The six bytes that `msg_handler_associate` and `msg_handler_deassociate` copy. -/
def handlerMac : MacPointer → Except Fault (List UInt8)
  | .dangling _ => .error .badPointer
  | .allocated bytes => if 6 ≤ bytes.length then .ok (bytes.take 6) else .error .badPointer

/-- The body of `process_incoming_message` for one datagram; the pointer is freed
behind the handlers. -/
def processMessage (order : ByteOrder) (linkMacAddress : Octets 6) (str : Datagram)
    (macaddress : Dangling) (fuel : Nat) : Option (Except Fault (Handled × Dangling)) :=
  match messageId (order.load16 (byteAt str 2) (byteAt str 3)) with
  | .capDiscConf =>
      (decodeCapabilityDiscoverResponse str linkMacAddress fuel).map fun outcome => do
        let result ← outcome
        return (if result ≠ 0 then .subscribe else .nothing, macaddress)
  | .linkUp =>
      (decodeLinkEventIndication str macaddress fuel).map fun outcome => do
        let (_, pointer) ← outcome
        let mac ← handlerMac pointer
        return (.associate mac, .freed)
  | .linkDown =>
      (decodeLinkEventIndication str macaddress fuel).map fun outcome => do
        let (_, pointer) ← outcome
        let mac ← handlerMac pointer
        return (.deassociate mac, .freed)
  | .evtSubConf => some (.ok (.nothing, macaddress))
  | .unknown => some (.ok (.nothing, macaddress))

theorem processMessage_missing {order : ByteOrder} {linkMacAddress : Octets 6} {str : Datagram}
    {fuel : Nat} (isLinkUp : messageId (order.load16 (byteAt str 2) (byteAt str 3)) = .linkUp)
    (missing : walk isAccessRouter str fuel = some (.ok none)) (macaddress : Dangling) :
    processMessage order linkMacAddress str macaddress fuel = some (.error .badPointer) := by
  simp only [processMessage, isLinkUp, decodeLinkEventIndication, missing]
  rfl

def emptyIndication : Datagram := [0x10, 0, 0x02, 0x2c, 0, 1, 0, 0]

def longSource : Datagram :=
  [0x10, 0, 0x02, 0x2c, 0, 1, 1, 12, 1, 254] ++ List.replicate 254 0x61 ++
    [16, 10, 0, 0, 6, 6, 0, 0x1b, 0x44, 0x11, 0x3a, 0xb7]

def sourceOnly : Datagram :=
  [0x10, 0, 0x01, 0x10, 0, 1, 0, 128, 1, 126] ++ List.replicate 126 0x61

/-- The pointer is left as it was, a length with a sign leads back to its own TLV,
and a payload length with a sign leads behind the datagram. -/
theorem tlv_walk_fails :
    (¬LinkEventDecoded emptyIndication .uninitialised ∧
      processMessage .little (Octets.zero 6) emptyIndication .uninitialised 1 =
        some (.error .badPointer)) ∧
    (expected isAccessRouter longSource = some 264 ∧
      ∀ fuel, walk isAccessRouter longSource fuel = none) ∧
    (WellFormed sourceOnly ∧ expected isAddrList sourceOnly = none ∧
      walk isAddrList sourceOnly 2 = some (.error .unreceived)) := by
  have wellFormed : WellFormed sourceOnly := by decide +kernel
  refine ⟨⟨?_, rfl⟩, ⟨by decide +kernel, ?_⟩, wellFormed, by decide +kernel, by decide +kernel⟩
  · rw [link_event_iff]
    intro reached
    obtain ⟨t, isExpected, -⟩ := reached
    have none_ : expected isAccessRouter emptyIndication = none := by decide
    cases none_.symm.trans isExpected
  · intro fuel
    have stays : turn isAccessRouter longSource 268 8 = .ok (.again 8) := by decide +kernel
    have never : ∀ outcome, ¬Ends (turn isAccessRouter longSource 268) 8 outcome := by
      refine @never_ends _ _ _ (turn isAccessRouter longSource 268) (fun i => i = 8) ?_ _ rfl
      intro i same
      subst same
      exact ⟨8, stays, rfl⟩
    have high : readByte longSource 6 = .ok 1 := by decide +kernel
    have low : readByte longSource 7 = .ok 12 := by decide +kernel
    have length : (payloadLength 1 12).toNat = 268 := by decide
    simp only [walk, high, low, length, Int.cast_ofNat_Int, sizeofHeader]
    cases finished : loop (turn isAccessRouter longSource 268) fuel 8 with
    | none => rfl
    | some outcome => exact absurd ⟨fuel, finished⟩ (never outcome)

end OaiPmip.Odtone
