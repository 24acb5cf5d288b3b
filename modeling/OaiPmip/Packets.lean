import Mathlib.Algebra.Order.Ring.Int
import OaiPmip.Lib.Wire

/-!
# Packets from the netfilter queue, fmpmip_packets_userspace_queue_handler.c

A packet is a payload of so many bytes and pointers into it; a read of a byte
that the payload does not have is an error.  The remaining length is an `int`
and becomes negative behind the end.
-/

set_option autoImplicit false

namespace OaiPmip.Packets

open OaiPmip.Wire

inductive ReadFault where
  | outside
  | unfinished
  deriving DecidableEq

def readByte (payload : List UInt8) (i : Nat) : Except ReadFault UInt8 :=
  readByteOr .outside payload i

/-- `struct packet`; the pointers are offsets into the payload. -/
structure Packet where
  len : Int
  rawPacket : Nat
  ip6 : Option Nat
  transportProtocol : Int
  tcp : Option Nat
  udp : Option Nat
  transportSourcePort : UInt16
  transportDestinationPort : UInt16
  deriving DecidableEq

def Packet.start (payload : List UInt8) : Packet where
  len := payload.length
  rawPacket := 0
  ip6 := none
  transportProtocol := 0
  tcp := none
  udp := none
  transportSourcePort := 0
  transportDestinationPort := 0

def Packet.skip (packet : Packet) (size : Nat) : Packet :=
  { packet with rawPacket := packet.rawPacket + size, len := packet.len - size }

/-- `IPPROTO_HOPOPTS`, `IPPROTO_ROUTING`, `IPPROTO_FRAGMENT`, `IPPROTO_DSTOPTS`. -/
def isExtension (nextHeader : UInt8) : Bool :=
  nextHeader = 0 || nextHeader = 43 || nextHeader = 44 || nextHeader = 60

/-- The loop of `parse_ipv6`; the result -1 is `none`. -/
def extensionLoop (payload : List UInt8) :
    Nat → UInt8 → Packet → Except ReadFault (Option UInt8 × Packet)
  | 0, _, _ => .error .unfinished
  | fuel + 1, nextHeader, packet =>
      if isExtension nextHeader then
        if packet.len < 8 then .ok (none, packet)
        else do
          let ip6eLen ← readByte payload (packet.rawPacket + 1)
          if packet.len < ((ip6eLen.toNat + 1) * 8 : Nat) then return (none, packet)
          let ip6eNxt ← readByte payload packet.rawPacket
          extensionLoop payload fuel ip6eNxt (packet.skip ((ip6eLen.toNat + 1) * 8))
      else .ok (some nextHeader, packet)

/-- `parse_ipv6`; every turn of its loop skips at least eight bytes. -/
def parseIpv6 (payload : List UInt8) (packet : Packet) :
    Except ReadFault (Option UInt8 × Packet) := do
  let nextHeader ← readByte payload (packet.rawPacket + 6)
  let packet := { packet with ip6 := some packet.rawPacket }
  extensionLoop payload (payload.length + 1) nextHeader (packet.skip 40)

section Transport
variable (order : ByteOrder)

def readPort (payload : List UInt8) (i : Nat) : Except ReadFault UInt16 := do
  let first ← readByte payload i
  let second ← readByte payload (i + 1)
  return order.net16 (order.load16 first second)

/-- What `parse_tcp` and `parse_udp` have in common: the ports are in front, the
rest of the header is passed over. -/
def parsePorts (payload : List UInt8) (packet : Packet) (size : Nat) (protocol : Int) :
    Except ReadFault Packet := do
  let source ← readPort order payload packet.rawPacket
  let dest ← readPort order payload (packet.rawPacket + 2)
  return { packet.skip size with
    transportSourcePort := source
    transportDestinationPort := dest
    transportProtocol := protocol }

def parseTcp (payload : List UInt8) (packet : Packet) : Except ReadFault Packet :=
  parsePorts order payload { packet with tcp := some packet.rawPacket } 20 6

def parseUdp (payload : List UInt8) (packet : Packet) : Except ReadFault Packet :=
  parsePorts order payload { packet with udp := some packet.rawPacket } 8 17

/-- `ipversion >> 4` of a `char` with a sign. -/
def ipversion (byte : UInt8) : Int := byte.toInt8.toInt >>> (4 : Nat)

/-- `dump_packet` prints the flow, and the addresses behind it. -/
def dumpPacket (payload : List UInt8) (packet : Packet) : Except ReadFault Unit :=
  match packet.ip6 with
  | none => .error .outside
  | some ip6 => (List.range 4 ++ List.range' 8 32).forM fun i => do
      let _ ← readByte payload (ip6 + i)

/-- `parse_packet`: whether the packet is to be scheduled, and what was parsed. -/
def parsePacket (payload : List UInt8) : Except ReadFault (Bool × Packet) := do
  let byte ← readByte payload 0
  let packet := Packet.start payload
  if ipversion byte = 0x45 then return (false, packet)
  let (transportProtocol, packet) ← parseIpv6 payload packet
  if transportProtocol = some 6 then
    let packet ← parseTcp order payload packet
    dumpPacket payload packet
    return (true, packet)
  else if transportProtocol = some 17 then
    let packet ← parseUdp order payload packet
    dumpPacket payload packet
    return (true, packet)
  else return (false, packet)

end Transport

/-! ## The chain of headers -/

/-- The length of the extension header at `o`. -/
def extensionSize (payload : List UInt8) (o : Nat) : Nat := ((payload.getD (o + 1) 0).toNat + 1) * 8

/-- An extension header that is announced at `o` is in the payload as a whole. -/
def Whole (payload : List UInt8) (o : Nat) : Prop :=
  o + 8 ≤ payload.length ∧ o + extensionSize payload o ≤ payload.length

/-- From a header announced at an offset over the extension headers of the list
to another. -/
inductive Chain (payload : List UInt8) : Nat → UInt8 → List Nat → Nat → UInt8 → Prop
  | here (o : Nat) (nextHeader : UInt8) : Chain payload o nextHeader [] o nextHeader
  | skip {o o' : Nat} {nextHeader nextHeader' : UInt8} {skipped : List Nat}
      (extension : isExtension nextHeader = true) (whole : Whole payload o)
      (later : Chain payload (o + extensionSize payload o) (payload.getD o 0) skipped o'
        nextHeader') :
      Chain payload o nextHeader (o :: skipped) o' nextHeader'

section Chain
variable {payload : List UInt8} {o o' : Nat} {nextHeader nextHeader' : UInt8} {skipped : List Nat}

theorem Chain.offset (chain : Chain payload o nextHeader skipped o' nextHeader') :
    o' = o + (skipped.map (extensionSize payload)).sum := by
  induction chain with
  | here o nextHeader => rfl
  | skip extension whole later ih => rw [ih, List.map_cons, List.sum_cons, Nat.add_assoc]

theorem Chain.le (chain : Chain payload o nextHeader skipped o' nextHeader') : o ≤ o' := by
  rw [chain.offset]
  exact Nat.le_add_right _ _

def Stuck (payload : List UInt8) (o : Nat) (nextHeader : UInt8) : Prop :=
  ¬ (isExtension nextHeader = true ∧ Whole payload o)

theorem Chain.unique (chain : Chain payload o nextHeader skipped o' nextHeader')
    (stuck : Stuck payload o' nextHeader') {skipped'' : List Nat} {o'' : Nat} {nextHeader'' : UInt8}
    (other : Chain payload o nextHeader skipped'' o'' nextHeader'')
    (otherStuck : Stuck payload o'' nextHeader'') :
    skipped = skipped'' ∧ o' = o'' ∧ nextHeader' = nextHeader'' := by
  induction chain generalizing skipped'' with
  | here o nextHeader =>
      cases other with
      | here => exact ⟨rfl, rfl, rfl⟩
      | skip extension whole later => exact absurd ⟨extension, whole⟩ stuck
  | skip extension whole later ih =>
      cases other with
      | here => exact absurd ⟨extension, whole⟩ otherStuck
      | skip _ _ otherLater =>
          obtain ⟨rfl, same⟩ := ih stuck otherLater
          exact ⟨rfl, same⟩

theorem readByte_inside {i : Nat} (inside : i < payload.length) :
    readByte payload i = .ok (payload.getD i 0) := readByteOr_inside ReadFault.outside inside

theorem readByte_outside {i : Nat} (outside : payload.length ≤ i) :
    readByte payload i = .error .outside := readByteOr_outside ReadFault.outside outside

theorem skip_skip (packet : Packet) (first second : Nat) :
    (packet.skip first).skip second = packet.skip (first + second) := by
  simp only [Packet.skip, Nat.add_assoc, Nat.cast_add, sub_sub]

/-- The loop goes along the chain as far as there is one, and reads bytes of the
payload only. -/
theorem extensionLoop_chain {fuel : Nat} {packet : Packet} (raw : packet.rawPacket = o)
    (remaining : packet.len = (payload.length : Int) - o) (enough : payload.length - o < fuel) :
    ∃ skipped o' nextHeader', Chain payload o nextHeader skipped o' nextHeader' ∧
      Stuck payload o' nextHeader' ∧
      extensionLoop payload fuel nextHeader packet =
        .ok (if isExtension nextHeader' then none else some nextHeader', packet.skip (o' - o)) := by
  induction fuel generalizing o nextHeader packet with
  | zero => omega
  | succ fuel ih =>
      have unmoved : packet.skip (o - o) = packet := by
        simp [Packet.skip]
      have stays : ∀ outcome, extensionLoop payload (fuel + 1) nextHeader packet =
          .ok (outcome, packet) → extensionLoop payload (fuel + 1) nextHeader packet =
            .ok (outcome, packet.skip (o - o)) := by
        intro outcome ended
        rw [unmoved]
        exact ended
      by_cases extension : isExtension nextHeader = true
      · by_cases short : packet.len < 8
        · refine ⟨[], o, nextHeader, .here o nextHeader, fun both => ?_, stays _ ?_⟩
          · have inside := both.2.1
            omega
          · rw [extensionLoop, if_pos extension, if_pos short, if_pos extension]
        · have lenRead : readByte payload (packet.rawPacket + 1) =
              .ok (payload.getD (o + 1) 0) := by
            rw [raw]
            exact readByte_inside (by omega)
          have nxtRead : readByte payload packet.rawPacket = .ok (payload.getD o 0) := by
            rw [raw]
            exact readByte_inside (by omega)
          by_cases cut : packet.len < (extensionSize payload o : Nat)
          · refine ⟨[], o, nextHeader, .here o nextHeader, fun both => ?_, stays _ ?_⟩
            · have inside := both.2.2
              omega
            · rw [extensionLoop, if_pos extension, if_neg short, lenRead, if_pos extension]
              exact if_pos cut
          · have whole : Whole payload o := ⟨by omega, by omega⟩
            have moved : (packet.skip (extensionSize payload o)).rawPacket =
                o + extensionSize payload o := congrArg (· + _) raw
            have left : (packet.skip (extensionSize payload o)).len =
                (payload.length : Int) - (o + extensionSize payload o : Nat) := by
              change packet.len - (extensionSize payload o : Int) = _
              omega
            have advances : 8 ≤ extensionSize payload o := by
              rw [extensionSize]
              omega
            obtain ⟨skipped, o', nextHeader', chain, stuck, run⟩ :=
              @ih (o + extensionSize payload o) (payload.getD o 0) _ moved left (by omega)
            refine ⟨o :: skipped, o', nextHeader', .skip extension whole chain, stuck, ?_⟩
            have further := chain.le
            rw [skip_skip] at run
            rw [extensionLoop, if_pos extension, if_neg short, lenRead]
            refine (if_neg cut).trans ?_
            rw [nxtRead]
            refine run.trans ?_
            have total :
                extensionSize payload o + (o' - (o + extensionSize payload o)) = o' - o := by
              omega
            rw [total]
      · refine ⟨[], o, nextHeader, .here o nextHeader, fun both => extension both.1, stays _ ?_⟩
        rw [extensionLoop, if_neg extension, if_neg extension]

theorem Chain.inside (chain : Chain payload o nextHeader skipped o' nextHeader')
    (inside : o ≤ payload.length) : o' ≤ payload.length := by
  induction chain with
  | here o nextHeader => exact inside
  | skip extension whole later ih => exact ih whole.2

end Chain

/-- The packet when its header at `o` is looked at. -/
def packetAt (payload : List UInt8) (o : Nat) : Packet :=
  { Packet.start payload with
    ip6 := some 0
    rawPacket := o
    len := (payload.length : Int) - o }

/-- The fixed header is not checked; only its seventh byte is read. -/
theorem parseIpv6_chain {payload : List UInt8} (long : 7 ≤ payload.length) :
    ∃ skipped o nextHeader, Chain payload 40 (payload.getD 6 0) skipped o nextHeader ∧
      Stuck payload o nextHeader ∧
      parseIpv6 payload (Packet.start payload) =
        .ok (if isExtension nextHeader then none else some nextHeader, packetAt payload o) := by
  obtain ⟨skipped, o, nextHeader, chain, stuck, run⟩ :=
    @extensionLoop_chain payload 40 (payload.getD 6 0) (payload.length + 1)
      (packetAt payload 40) rfl rfl (by omega)
  have further := chain.le
  have moved : (packetAt payload 40).skip (o - 40) = packetAt payload o := by
    simp only [Packet.skip, packetAt, Packet.mk.injEq, and_true]
    omega
  have fixed : ({ Packet.start payload with ip6 := some 0 } : Packet).skip 40 =
      packetAt payload 40 := by
    simp only [Packet.skip, packetAt, Packet.start, Nat.zero_add, Nat.cast_ofNat]
  refine ⟨skipped, o, nextHeader, chain, stuck, ?_⟩
  rw [moved] at run
  rw [parseIpv6]
  change (readByte payload 6).bind _ = _
  rw [readByte_inside (by omega)]
  change extensionLoop payload (payload.length + 1) (payload.getD 6 0)
    (({ Packet.start payload with ip6 := some 0 } : Packet).skip 40) = _
  rw [fixed, run]

/-- The walk over the extension headers ends, at the first other header or at an
extension header that is cut off, and there is no other way to the result -1. -/
theorem parse_ipv6_walks {payload : List UInt8} (long : 40 ≤ payload.length) :
    (∃ skipped o nextHeader, Chain payload 40 (payload.getD 6 0) skipped o nextHeader ∧
        o = 40 + (skipped.map fun h => 8 * ((payload.getD (h + 1) 0).toNat + 1)).sum ∧
        o ≤ payload.length ∧
        ((isExtension nextHeader = false ∧ parseIpv6 payload (Packet.start payload) =
            .ok (some nextHeader, packetAt payload o)) ∨
          (isExtension nextHeader = true ∧ ¬ Whole payload o ∧
            parseIpv6 payload (Packet.start payload) = .ok (none, packetAt payload o)))) ∧
      ((∃ packet, parseIpv6 payload (Packet.start payload) = .ok (none, packet)) ↔
        ∃ skipped o nextHeader, Chain payload 40 (payload.getD 6 0) skipped o nextHeader ∧
          isExtension nextHeader = true ∧ ¬ Whole payload o) := by
  obtain ⟨skipped, o, nextHeader, chain, stuck, run⟩ := @parseIpv6_chain payload (by omega)
  have sizes : (skipped.map fun h => 8 * ((payload.getD (h + 1) 0).toNat + 1)) =
      skipped.map (extensionSize payload) :=
    List.map_congr_left fun h _ => Nat.mul_comm _ _
  rw [run]
  constructor
  · refine ⟨skipped, o, nextHeader, chain, by rw [sizes]; exact chain.offset, chain.inside long, ?_⟩
    by_cases extension : isExtension nextHeader = true
    · rw [if_pos extension]
      exact Or.inr ⟨extension, fun whole => stuck ⟨extension, whole⟩, rfl⟩
    · rw [if_neg extension]
      exact Or.inl ⟨by simpa using extension, rfl⟩
  · constructor
    · intro given
      obtain ⟨packet, failed⟩ := given
      by_cases extension : isExtension nextHeader = true
      · exact ⟨skipped, o, nextHeader, chain, extension, fun whole => stuck ⟨extension, whole⟩⟩
      · rw [if_neg extension] at failed
        cases failed
    · intro given
      obtain ⟨others, o', nextHeader', other, extension, cut⟩ := given
      obtain ⟨_, _, rfl⟩ := chain.unique stuck other fun both => cut both.2
      exact ⟨packetAt payload o, by rw [if_pos extension]⟩

/-- A hop-by-hop header of eight bytes in front of TCP. -/
theorem parse_ipv6_walks_hop :
    let payload : List UInt8 := List.replicate 40 0 ++ 6 :: List.replicate 7 0
    parseIpv6 payload (Packet.start payload) = .ok (some 6, packetAt payload 48) ∧
      ¬ ∃ skipped o nextHeader, Chain payload 40 (payload.getD 6 0) skipped o nextHeader ∧
        isExtension nextHeader = true ∧ ¬ Whole payload o := by
  intro payload
  have run : parseIpv6 payload (Packet.start payload) = .ok (some 6, packetAt payload 48) := by
    decide +kernel
  refine ⟨run, fun cut => ?_⟩
  obtain ⟨packet, failed⟩ := (parse_ipv6_walks (by decide : 40 ≤ payload.length)).2.mpr cut
  rw [run] at failed
  cases failed

/-! ## What is scheduled -/

section Ports
variable (order : ByteOrder) {payload : List UInt8} {i : Nat}

theorem readPort_inside (inside : i + 1 < payload.length) :
    ∃ port, readPort order payload i = .ok port := by
  refine ⟨order.net16 (order.load16 (payload.getD i 0) (payload.getD (i + 1) 0)), ?_⟩
  rw [readPort, readByte_inside (by omega), readByte_inside inside]
  rfl

theorem readPort_outside (outside : payload.length ≤ i + 1) :
    readPort order payload i = .error .outside := by
  by_cases first : i < payload.length
  · rw [readPort, readByte_inside first, readByte_outside outside]
    rfl
  · rw [readPort, readByte_outside (by omega)]
    rfl

variable {packet : Packet}

theorem parsePorts_inside (inside : packet.rawPacket + 4 ≤ payload.length) (size : Nat)
    (protocol : Int) :
    ∃ parsed, parsePorts order payload packet size protocol = .ok parsed ∧
      parsed.ip6 = packet.ip6 := by
  obtain ⟨source, sourceRead⟩ := @readPort_inside order payload packet.rawPacket (by omega)
  obtain ⟨dest, destRead⟩ := @readPort_inside order payload (packet.rawPacket + 2) (by omega)
  refine ⟨{ packet.skip size with
    transportSourcePort := source
    transportDestinationPort := dest
    transportProtocol := protocol }, ?_, rfl⟩
  rw [parsePorts, sourceRead]
  change (readPort order payload (packet.rawPacket + 2)).bind _ = _
  rw [destRead]
  rfl

theorem parsePorts_outside (outside : payload.length < packet.rawPacket + 4) (size : Nat)
    (protocol : Int) : parsePorts order payload packet size protocol = .error .outside := by
  by_cases first : packet.rawPacket + 1 < payload.length
  · obtain ⟨source, sourceRead⟩ := @readPort_inside order payload packet.rawPacket first
    rw [parsePorts, sourceRead]
    change (readPort order payload (packet.rawPacket + 2)).bind _ = _
    rw [readPort_outside order (by omega)]
    rfl
  · rw [parsePorts, readPort_outside order (by omega)]
    rfl

theorem dumpPacket_inside (long : 40 ≤ payload.length) (start : packet.ip6 = some 0) :
    dumpPacket payload packet = .ok () := by
  have reads : ∀ indices : List Nat, (∀ i ∈ indices, i < payload.length) →
      (indices.forM fun i => do let _ ← readByte payload (0 + i)) =
        (.ok () : Except ReadFault Unit) := by
    intro indices inside
    induction indices with
    | nil => rfl
    | cons i indices ih =>
        change ((readByte payload (0 + i)).bind _).bind _ = _
        rw [Nat.zero_add, readByte_inside (inside i List.mem_cons_self)]
        exact ih fun other later => inside other (List.mem_cons_of_mem i later)
  rw [dumpPacket, start]
  refine reads _ fun i printed => ?_
  have header : i < 40 := by
    rw [List.mem_append, List.mem_range, List.mem_range'_1] at printed
    omega
  omega

end Ports

/-- `sizeof(struct tcphdr)` and `sizeof(struct udphdr)`, by protocol. -/
def transportSize (protocol : UInt8) : Option Nat :=
  if protocol = 6 then some 20 else if protocol = 17 then some 8 else none

def Reaches (payload : List UInt8) (o size : Nat) : Prop :=
  ∃ skipped transport, Chain payload 40 (payload.getD 6 0) skipped o transport ∧
    transportSize transport = some size

/-- IPv6 with a whole fixed header, whole extension headers and a whole header of
TCP or UDP. -/
def Classified (payload : List UInt8) : Prop :=
  (payload.getD 0 0).toNat / 16 = 6 ∧ 40 ≤ payload.length ∧
    ∃ o size, Reaches payload o size ∧ o + size ≤ payload.length

section Classified
variable {payload : List UInt8}

theorem ipversion_ne (byte : UInt8) : ipversion byte ≠ 0x45 := by
  have small := byte.toInt8.toInt_lt
  rw [ipversion, Int.shiftRight_eq_div_pow]
  omega

theorem transport_stuck {transport : UInt8} {size : Nat}
    (found : transportSize transport = some size) (o : Nat) : Stuck payload o transport := by
  intro both
  have extension := both.1
  by_cases tcp : transport = 6
  · subst tcp
    exact absurd extension (by decide)
  · by_cases udp : transport = 17
    · subst udp
      exact absurd extension (by decide)
    · rw [transportSize, if_neg tcp, if_neg udp] at found
      cases found

theorem Reaches.unique {o o' size size' : Nat} (reaches : Reaches payload o size)
    (other : Reaches payload o' size') : o = o' ∧ size = size' := by
  obtain ⟨skipped, transport, chain, found⟩ := reaches
  obtain ⟨skipped', transport', chain', found'⟩ := other
  obtain ⟨_, rfl, rfl⟩ :=
    chain.unique (transport_stuck found o) chain' (transport_stuck found' o')
  exact ⟨rfl, Option.some.inj (found.symm.trans found')⟩

theorem Reaches.le {o size : Nat} (reaches : Reaches payload o size) : 40 ≤ o :=
  reaches.choose_spec.choose_spec.1.le

variable (order : ByteOrder)

theorem parsePacket_short (short : payload.length < 7) :
    parsePacket order payload = .error .outside := by
  by_cases empty : payload.length = 0
  · rw [parsePacket, readByte_outside (by omega)]
    rfl
  · rw [parsePacket, readByte_inside (by omega)]
    refine (if_neg (ipversion_ne _)).trans ?_
    rw [parseIpv6]
    change ((readByte payload 6).bind _).bind _ = _
    rw [readByte_outside (by omega)]
    rfl

theorem announced_ne {nextHeader protocol : UInt8} (other : nextHeader ≠ protocol) :
    (if isExtension nextHeader then none else some nextHeader) ≠ some protocol := by
  by_cases extension : isExtension nextHeader = true
  · rw [if_pos extension]
    exact Option.some_ne_none protocol |>.symm
  · rw [if_neg extension]
    exact fun same => other (Option.some.inj same)

theorem parsePacket_unreached (long : 7 ≤ payload.length)
    (nowhere : ∀ o size, ¬ Reaches payload o size) :
    ∃ packet, parsePacket order payload = .ok (false, packet) := by
  obtain ⟨skipped, o, nextHeader, chain, stuck, run⟩ := parseIpv6_chain long
  have tcp : nextHeader ≠ 6 := fun same =>
    nowhere o 20 ⟨skipped, nextHeader, chain, by rw [same]; rfl⟩
  have udp : nextHeader ≠ 17 := fun same =>
    nowhere o 8 ⟨skipped, nextHeader, chain, by rw [same]; rfl⟩
  refine ⟨packetAt payload o, ?_⟩
  rw [parsePacket, readByte_inside (by omega)]
  refine (if_neg (ipversion_ne _)).trans ?_
  rw [run]
  exact (if_neg (announced_ne tcp)).trans (if_neg (announced_ne udp))

theorem scheduled {packet : Packet} (behind : 40 ≤ packet.rawPacket) (start : packet.ip6 = some 0)
    (size : Nat) (protocol : Int) :
    let run : Except ReadFault (Bool × Packet) := do
      let packet ← parsePorts order payload packet size protocol
      dumpPacket payload packet
      return (true, packet)
    (packet.rawPacket + 4 ≤ payload.length → ∃ packet, run = .ok (true, packet)) ∧
      (payload.length < packet.rawPacket + 4 → run = .error .outside) := by
  intro run
  constructor
  · intro inside
    obtain ⟨parsed, read, kept⟩ := parsePorts_inside order inside size protocol
    refine ⟨parsed, ?_⟩
    change (parsePorts order payload packet size protocol).bind _ = _
    rw [read]
    change (dumpPacket payload parsed).bind _ = _
    rw [dumpPacket_inside (by omega) (kept.trans start)]
    rfl
  · intro outside
    change (parsePorts order payload packet size protocol).bind _ = _
    rw [parsePorts_outside order outside]
    rfl

theorem parsePacket_reached (long : 7 ≤ payload.length) {o size : Nat}
    (reaches : Reaches payload o size) :
    (o + 4 ≤ payload.length → ∃ packet, parsePacket order payload = .ok (true, packet)) ∧
      (payload.length < o + 4 → parsePacket order payload = .error .outside) := by
  obtain ⟨skipped, o', nextHeader, chain, stuck, run⟩ := parseIpv6_chain long
  have fixed := reaches.le
  obtain ⟨walked, transport, toTransport, found⟩ := reaches
  obtain ⟨_, rfl, rfl⟩ := toTransport.unique (transport_stuck found o) chain stuck
  have known : transport = 6 ∨ transport = 17 := by
    by_contra neither
    rw [not_or] at neither
    rw [transportSize, if_neg neither.1, if_neg neither.2] at found
    cases found
  have start : parsePacket order payload = (do
      let (transportProtocol, packet) ← parseIpv6 payload (Packet.start payload)
      if transportProtocol = some 6 then
        let packet ← parseTcp order payload packet
        dumpPacket payload packet
        return (true, packet)
      else if transportProtocol = some 17 then
        let packet ← parseUdp order payload packet
        dumpPacket payload packet
        return (true, packet)
      else return (false, packet)) := by
    rw [parsePacket, readByte_inside (by omega)]
    exact if_neg (ipversion_ne _)
  rw [start, run]
  cases known with
  | inl tcp =>
      subst tcp
      exact @scheduled payload order { packetAt payload o with tcp := some o } fixed rfl 20 6
  | inr udp =>
      subst udp
      exact @scheduled payload order { packetAt payload o with udp := some o } fixed rfl 8 17

/-- Every byte that is read is in the payload, and a payload is to be scheduled
only if it is classified. -/
def Sound (payload : List UInt8) : Prop :=
  ∃ result packet, parsePacket order payload = .ok (result, packet) ∧
    (result = true → Classified payload) ∧ (¬ Classified payload → result = false)

/-- The byte that announces the first header is there, and when the chain of
headers leads to TCP or UDP the version is 6 and that header is whole. -/
def Guarded (payload : List UInt8) : Prop :=
  7 ≤ payload.length ∧ ∀ o size, Reaches payload o size →
    (payload.getD 0 0).toNat / 16 = 6 ∧ o + size ≤ payload.length

theorem transport_ports {o size : Nat} (reaches : Reaches payload o size) : 4 ≤ size := by
  obtain ⟨_, transport, _, found⟩ := reaches
  simp only [transportSize] at found
  split at found
  · cases found
    decide
  · split at found
    · cases found
      decide
    · cases found

/-- The parser of a packet is sound on a payload exactly when it is guarded. -/
theorem parse_packet_sound_iff (payload : List UInt8) : Sound order payload ↔ Guarded payload := by
  constructor
  · intro sound
    obtain ⟨result, packet, run, onlyIf, _⟩ := sound
    have long : 7 ≤ payload.length := by
      by_contra short
      rw [parsePacket_short order (by omega)] at run
      cases run
    refine ⟨long, fun o size reaches => ?_⟩
    have parsed := parsePacket_reached order long reaches
    by_cases ports : o + 4 ≤ payload.length
    · obtain ⟨packet', scheduled⟩ := parsed.1 ports
      obtain ⟨rfl, _⟩ := Prod.mk.inj (Except.ok.inj (run.symm.trans scheduled))
      obtain ⟨version, _, o', size', found, whole⟩ := onlyIf rfl
      obtain ⟨rfl, rfl⟩ := reaches.unique found
      exact ⟨version, whole⟩
    · rw [parsed.2 (by omega)] at run
      cases run
  · intro guarded
    obtain ⟨long, transports⟩ := guarded
    by_cases reached : ∃ o size, Reaches payload o size
    · obtain ⟨o, size, reaches⟩ := reached
      obtain ⟨version, whole⟩ := transports o size reaches
      have ports := transport_ports reaches
      have fixed := reaches.le
      obtain ⟨packet, run⟩ := (parsePacket_reached order long reaches).1 (by omega)
      have classified : Classified payload := ⟨version, by omega, o, size, reaches, whole⟩
      exact ⟨true, packet, run, fun _ => classified, fun missed => absurd classified missed⟩
    · obtain ⟨packet, run⟩ := parsePacket_unreached order long fun o size reaches =>
        reached ⟨o, size, reaches⟩
      exact ⟨false, packet, run, fun result => (Bool.noConfusion result), fun _ => rfl⟩

/-- An empty payload is read, and an IPv4 packet with TCP's number in its seventh
byte and a header of TCP without its last sixteen bytes are scheduled. -/
theorem parse_packet_unsound :
    let ipv4 : List UInt8 := 0x45 :: List.replicate 5 0 ++ 6 :: List.replicate 53 0
    let cut : List UInt8 := 0x60 :: List.replicate 5 0 ++ 6 :: List.replicate 37 0
    ¬ Sound .little [] ∧ ¬ Sound .little ipv4 ∧ ¬ Sound .little cut := by
  intro ipv4 cut
  have scheduled : ∀ payload, ((parsePacket .little payload).map Prod.fst).toOption = some true →
      Sound .little payload → Classified payload := by
    intro payload marked sound
    obtain ⟨result, packet, run, onlyIf, _⟩ := sound
    rw [run] at marked
    exact onlyIf (Option.some.inj marked)
  refine ⟨fun sound => ?_, fun sound => ?_, fun sound => ?_⟩
  · obtain ⟨result, packet, run, _⟩ := sound
    cases run
  · have version := (scheduled ipv4 (by decide +kernel) sound).1
    exact absurd version (by decide)
  · obtain ⟨_, _, o, size, reaches, whole⟩ := scheduled cut (by decide +kernel) sound
    have tcp : Reaches cut 40 20 := ⟨[], 6, .here 40 6, rfl⟩
    obtain ⟨rfl, rfl⟩ := reaches.unique tcp
    exact absurd whole (by decide)

end Classified

end OaiPmip.Packets
