import OaiPmip.FlowMob
import OaiPmip.Packets

/-!
# The flow key of a packet, schedule_packet

The traffic class and the flow label are cut out of `ip6_flow`, a word in
network order, as the host loads it.  The header's own fields are read off the
payload byte by byte and compared with what the scheduler is passed.
-/

set_option autoImplicit false

namespace OaiPmip.Packets

open OaiPmip.HashKeys
open OaiPmip.Wire

/-- `struct in6_addr` at an offset. -/
def readAddr (payload : List UInt8) (i : Nat) : Except ReadFault In6Addr :=
  if inside : i + 16 ≤ payload.length then
    .ok ⟨(payload.drop i).take 16, by
      rw [List.length_take, List.length_drop]
      omega⟩
  else .error .outside

section Host
variable (order : ByteOrder)

def readWord (payload : List UInt8) (i : Nat) : Except ReadFault UInt32 := do
  let first ← readByte payload i
  let second ← readByte payload (i + 1)
  let third ← readByte payload (i + 2)
  let fourth ← readByte payload (i + 3)
  return order.load32 first second third fourth

/-- What `schedule_packet` passes to `flowScheduler_schedule_flow`. -/
def schedulePacketKey (payload : List UInt8) (packet : Packet) : Except ReadFault FlowKey :=
  match packet.ip6 with
  | none => .error .outside
  | some ip6 => do
      let ip6Flow ← readWord order payload ip6
      let ip6Src ← readAddr payload (ip6 + 8)
      let ip6Dst ← readAddr payload (ip6 + 24)
      return {
        ip6Source := ip6Src
        ip6Destination := ip6Dst
        transportProtocol := .ofInt packet.transportProtocol
        transportSourcePort := packet.transportSourcePort
        transportDestinationPort := packet.transportDestinationPort
        trafficClass := (ip6Flow >>> 20).toUInt8
        flowLabel := ip6Flow &&& 0x000fffff }

/-- `process_queue_packet`: what is accepted is scheduled. -/
def processQueuePacket (marks : List (In6Addr × UInt32)) (d : Daemon) (s : FlowMob)
    (payload : List UInt8) (rand : Nat) (alloc node : Bool) :
    Except ReadFault (Except Crash FlowMob) := do
  let (result, packet) ← parsePacket order payload
  if result then
    let key ← schedulePacketKey order payload packet
    return s.schedulePacket marks d key rand alloc node
  else return .ok s

end Host

/-- A flow by the numbers in the headers of its packets. -/
structure FlowTuple where
  source : List UInt8
  destination : List UInt8
  protocol : Nat
  sourcePort : Nat
  destinationPort : Nat
  trafficClass : Nat
  flowLabel : Nat
  deriving DecidableEq

def byteAt (payload : List UInt8) (i : Nat) : Nat := (payload.getD i 0).toNat

/-- The fields of an IPv6 header in front of a transport header at `o`.  The
traffic class is the low half of the first byte and the high half of the
second, the flow label is the rest of the word. -/
def flowTuple (payload : List UInt8) (o : Nat) (protocol : UInt8) : FlowTuple where
  source := (payload.drop 8).take 16
  destination := (payload.drop 24).take 16
  protocol := protocol.toNat
  sourcePort := byteAt payload o * 256 + byteAt payload (o + 1)
  destinationPort := byteAt payload (o + 2) * 256 + byteAt payload (o + 3)
  trafficClass := byteAt payload 0 % 16 * 16 + byteAt payload 1 / 16
  flowLabel := byteAt payload 1 % 16 * 65536 + byteAt payload 2 * 256 + byteAt payload 3

def IsFlow (payload : List UInt8) (tuple : FlowTuple) : Prop :=
  ∃ skipped o protocol, Chain payload 40 (payload.getD 6 0) skipped o protocol ∧
    (protocol = 6 ∨ protocol = 17) ∧ tuple = flowTuple payload o protocol

def version (payload : List UInt8) : Nat := byteAt payload 0 / 16

def keyTuple (key : FlowKey) : FlowTuple where
  source := key.ip6Source.bytes
  destination := key.ip6Destination.bytes
  protocol := key.transportProtocol.toNat
  sourcePort := key.transportSourcePort.toNat
  destinationPort := key.transportDestinationPort.toNat
  trafficClass := key.trafficClass.toNat
  flowLabel := key.flowLabel.toNat

theorem keyTuple_inj (key key' : FlowKey) : keyTuple key = keyTuple key' ↔ key = key' := by
  constructor
  · intro same
    simp only [keyTuple, FlowTuple.mk.injEq] at same
    obtain ⟨source, destination, protocol, sourcePort, destinationPort, trafficClass, flowLabel⟩ :=
      same
    cases key
    cases key'
    simp only [FlowKey.mk.injEq]
    exact ⟨Octets.ext_bytes source, Octets.ext_bytes destination, UInt32.toNat_inj.mp protocol,
      UInt16.toNat_inj.mp sourcePort, UInt16.toNat_inj.mp destinationPort,
      UInt8.toNat_inj.mp trafficClass, UInt32.toNat_inj.mp flowLabel⟩
  · intro same
    rw [same]

theorem transport_known {protocol : UInt8} (known : protocol = 6 ∨ protocol = 17) :
    ∃ size, transportSize protocol = some size := by
  cases known with
  | inl tcp => exact ⟨20, by rw [tcp]; rfl⟩
  | inr udp => exact ⟨8, by rw [udp]; rfl⟩

theorem IsFlow.unique {payload : List UInt8} {tuple tuple' : FlowTuple}
    (flow : IsFlow payload tuple) (other : IsFlow payload tuple') : tuple = tuple' := by
  obtain ⟨skipped, o, protocol, chain, known, rfl⟩ := flow
  obtain ⟨skipped', o', protocol', chain', known', rfl⟩ := other
  obtain ⟨size, found⟩ := transport_known known
  obtain ⟨size', found'⟩ := transport_known known'
  obtain ⟨_, rfl, rfl⟩ :=
    chain.unique (transport_stuck found o) chain' (transport_stuck found' o')
  rfl

theorem flowLabel_toNat (word : UInt32) : (word &&& 0x000fffff).toNat = word.toNat % 2 ^ 20 := by
  rw [UInt32.toNat_and]
  exact Nat.and_two_pow_sub_one_eq_mod word.toNat 20

theorem trafficClass_toNat (word : UInt32) :
    (word >>> 20).toUInt8.toNat = word.toNat / 2 ^ 20 % 2 ^ 8 := by
  have shifted : (word >>> 20).toNat = word.toNat >>> 20 := rfl
  rw [UInt32.toNat_toUInt8, shifted, Nat.shiftRight_eq_div_pow]

section Bytes
variable {payload : List UInt8}

theorem byteAt_lt (payload : List UInt8) (i : Nat) : byteAt payload i < 256 :=
  UInt8.toNat_lt _

theorem readWord_inside (order : ByteOrder) {i : Nat} (inside : i + 3 < payload.length) :
    readWord order payload i = .ok (order.load32 (payload.getD i 0) (payload.getD (i + 1) 0)
      (payload.getD (i + 2) 0) (payload.getD (i + 3) 0)) := by
  rw [readWord, readByte_inside (by omega), readByte_inside (by omega), readByte_inside (by omega),
    readByte_inside inside]
  rfl

theorem readAddr_inside {i : Nat} (inside : i + 16 ≤ payload.length) :
    ∃ addr : In6Addr, readAddr payload i = .ok addr ∧ addr.bytes = (payload.drop i).take 16 := by
  rw [readAddr, dif_pos inside]
  exact ⟨_, rfl, rfl⟩

theorem readPort_value (order : ByteOrder) {i : Nat} {port : UInt16}
    (read : readPort order payload i = .ok port) :
    port.toNat = byteAt payload i * 256 + byteAt payload (i + 1) := by
  by_cases inside : i + 1 < payload.length
  · rw [readPort, readByte_inside (by omega), readByte_inside inside] at read
    cases read
    have first := byteAt_lt payload i
    have second := byteAt_lt payload (i + 1)
    simp only [byteAt] at first second ⊢
    cases order with
    | little =>
        simp only [ByteOrder.net16, ByteOrder.load16]
        rw [swap16_toNat, join16_toNat]
        omega
    | big =>
        simp only [ByteOrder.net16, ByteOrder.load16]
        rw [join16_toNat]
        omega
  · rw [readPort_outside order (by omega)] at read
    cases read

end Bytes

/-! ## Accepted packets -/

section Accepted
variable (order : ByteOrder) {payload : List UInt8} {packet parsed : Packet}

theorem parsePorts_stored {size : Nat} {protocol : Int}
    (run : parsePorts order payload packet size protocol = .ok parsed) :
    parsed.ip6 = packet.ip6 ∧ parsed.transportProtocol = protocol ∧
      parsed.transportSourcePort.toNat =
        byteAt payload packet.rawPacket * 256 + byteAt payload (packet.rawPacket + 1) ∧
      parsed.transportDestinationPort.toNat =
        byteAt payload (packet.rawPacket + 2) * 256 + byteAt payload (packet.rawPacket + 3) ∧
      packet.rawPacket + 4 ≤ payload.length := by
  have inside : packet.rawPacket + 4 ≤ payload.length := by
    by_contra outside
    rw [parsePorts_outside order (by omega)] at run
    cases run
  rw [parsePorts] at run
  obtain ⟨source, sourceRead, run⟩ := Runs.bind_eq_ok.mp run
  obtain ⟨dest, destRead, run⟩ := Runs.bind_eq_ok.mp run
  cases run
  exact ⟨rfl, rfl, readPort_value order sourceRead, readPort_value order destRead, inside⟩

theorem transport_accepted {result : Bool} {size : Nat} {protocol : Int}
    (run : (do
      let parsed ← parsePorts order payload packet size protocol
      dumpPacket payload parsed
      return (true, parsed) : Except ReadFault (Bool × Packet)) = .ok (result, parsed)) :
    parsePorts order payload packet size protocol = .ok parsed := by
  obtain ⟨ported, read, run⟩ := Runs.bind_eq_ok.mp run
  obtain ⟨printed, dumped, run⟩ := Runs.bind_eq_ok.mp run
  cases run
  exact read

theorem accepted_parsed (accepted : parsePacket order payload = .ok (true, packet)) :
    ∃ skipped o protocol, Chain payload 40 (payload.getD 6 0) skipped o protocol ∧
      (protocol = 6 ∨ protocol = 17) ∧ packet.ip6 = some 0 ∧
      packet.transportProtocol = protocol.toNat ∧
      packet.transportSourcePort.toNat = byteAt payload o * 256 + byteAt payload (o + 1) ∧
      packet.transportDestinationPort.toNat =
        byteAt payload (o + 2) * 256 + byteAt payload (o + 3) ∧
      o + 4 ≤ payload.length := by
  have long : 7 ≤ payload.length := by
    by_contra short
    rw [parsePacket_short order (by omega)] at accepted
    cases accepted
  obtain ⟨skipped, o, protocol, chain, _, walked⟩ := parseIpv6_chain long
  rw [parsePacket, readByte_inside (by omega)] at accepted
  replace accepted := (if_neg (ipversion_ne _)).symm.trans accepted
  rw [walked] at accepted
  by_cases tcp : protocol = 6
  · subst tcp
    have read := transport_accepted order accepted
    obtain ⟨ip6, stored, source, dest, inside⟩ := parsePorts_stored order read
    exact ⟨skipped, o, 6, chain, .inl rfl, ip6, stored, source, dest, inside⟩
  · replace accepted := (if_neg (announced_ne tcp)).symm.trans accepted
    by_cases udp : protocol = 17
    · subst udp
      have read := transport_accepted order accepted
      obtain ⟨ip6, stored, source, dest, inside⟩ := parsePorts_stored order read
      exact ⟨skipped, o, 17, chain, .inr rfl, ip6, stored, source, dest, inside⟩
    · replace accepted := (if_neg (announced_ne udp)).symm.trans accepted
      cases accepted

def hostWord (payload : List UInt8) : UInt32 :=
  order.load32 (payload.getD 0 0) (payload.getD 1 0) (payload.getD 2 0) (payload.getD 3 0)

/-- Everything in the key but the two fields of the word is what the headers
say. -/
theorem accepted_key (accepted : parsePacket order payload = .ok (true, packet)) :
    ∃ key tuple, schedulePacketKey order payload packet = .ok key ∧ IsFlow payload tuple ∧
      keyTuple key = { tuple with
        trafficClass := (hostWord order payload).toNat / 2 ^ 20 % 2 ^ 8
        flowLabel := (hostWord order payload).toNat % 2 ^ 20 } := by
  obtain ⟨skipped, o, protocol, chain, known, ip6, stored, source, dest, inside⟩ :=
    accepted_parsed order accepted
  have fixed := chain.le
  have word := @readWord_inside payload order 0 (by omega)
  obtain ⟨ip6Src, sourceRead, sourceBytes⟩ := @readAddr_inside payload 8 (by omega)
  obtain ⟨ip6Dst, destRead, destBytes⟩ := @readAddr_inside payload 24 (by omega)
  have small : (UInt32.ofInt packet.transportProtocol).toNat = protocol.toNat := by
    rw [stored]
    cases known with
    | inl tcp => rw [tcp]; rfl
    | inr udp => rw [udp]; rfl
  refine ⟨⟨ip6Src, ip6Dst, .ofInt packet.transportProtocol, packet.transportSourcePort,
    packet.transportDestinationPort, (hostWord order payload >>> 20).toUInt8,
    hostWord order payload &&& 0x000fffff⟩, flowTuple payload o protocol, ?_,
    ⟨skipped, o, protocol, chain, known, rfl⟩, ?_⟩
  · simp only [schedulePacketKey, ip6, word, Nat.zero_add, sourceRead, destRead, Runs.ok_bind]
    rfl
  · simp only [keyTuple, flowTuple, sourceBytes, destBytes, small, source, dest,
      trafficClass_toNat, flowLabel_toNat]

end Accepted

def Palindromic (payload : List UInt8) : Prop :=
  byteAt payload 3 = byteAt payload 0 ∧ byteAt payload 2 = byteAt payload 1

instance (payload : List UInt8) : Decidable (Palindromic payload) :=
  inferInstanceAs (Decidable (_ ∧ _))

def Extracted (key : FlowKey) (tuple : FlowTuple) : Prop :=
  key.trafficClass.toNat = tuple.trafficClass ∧ key.flowLabel.toNat = tuple.flowLabel

def Merged (tuple tuple' : FlowTuple) : Prop :=
  tuple.flowLabel / 16 % 16 ≠ tuple'.flowLabel / 16 % 16 ∧
    { tuple with flowLabel := tuple.flowLabel - tuple.flowLabel / 16 % 16 * 16 } =
      { tuple' with flowLabel := tuple'.flowLabel - tuple'.flowLabel / 16 % 16 * 16 }

instance (tuple tuple' : FlowTuple) : Decidable (Merged tuple tuple') :=
  inferInstanceAs (Decidable (_ ∧ _))

theorem littleWord_toNat (payload : List UInt8) : (hostWord .little payload).toNat =
    byteAt payload 0 + byteAt payload 1 * 2 ^ 8 + byteAt payload 2 * 2 ^ 16 +
      byteAt payload 3 * 2 ^ 24 := join32_toNat _ _ _ _

theorem hostClass (payload : List UInt8) : (hostWord .little payload).toNat / 2 ^ 20 % 2 ^ 8 =
    byteAt payload 3 % 16 * 16 + byteAt payload 2 / 16 := by
  have first := byteAt_lt payload 0
  have second := byteAt_lt payload 1
  have third := byteAt_lt payload 2
  have high : (hostWord .little payload).toNat / 2 ^ 20 =
      byteAt payload 3 * 16 + byteAt payload 2 / 16 := by
    rw [littleWord_toNat]
    omega
  rw [high]
  omega

theorem hostLabel (payload : List UInt8) : (hostWord .little payload).toNat % 2 ^ 20 =
    byteAt payload 2 % 16 * 2 ^ 16 + byteAt payload 1 * 2 ^ 8 + byteAt payload 0 := by
  have first := byteAt_lt payload 0
  have second := byteAt_lt payload 1
  rw [littleWord_toNat]
  omega

theorem swapped_iff {first second third fourth : Nat} (isFirst : first < 256)
    (isSecond : second < 256) (isThird : third < 256) (isFourth : fourth < 256) :
    (fourth % 16 * 16 + third / 16 = first % 16 * 16 + second / 16 ∧
      third % 16 * 2 ^ 16 + second * 2 ^ 8 + first =
        second % 16 * 65536 + third * 256 + fourth) ↔ fourth = first ∧ third = second := by
  constructor
  · intro both
    obtain ⟨trafficClass, flowLabel⟩ := both
    have outer : fourth = first := by omega
    exact ⟨outer, by omega⟩
  · intro same
    obtain ⟨rfl, rfl⟩ := same
    exact ⟨rfl, by omega⟩

theorem extracted_iff {payload : List UInt8} {key : FlowKey} {tuple : FlowTuple}
    (flow : IsFlow payload tuple)
    (passed : keyTuple key = { tuple with
      trafficClass := (hostWord .little payload).toNat / 2 ^ 20 % 2 ^ 8
      flowLabel := (hostWord .little payload).toNat % 2 ^ 20 }) :
    Extracted key tuple ↔ Palindromic payload := by
  obtain ⟨skipped, o, protocol, _, _, rfl⟩ := flow
  have trafficClass : key.trafficClass.toNat = _ := congrArg FlowTuple.trafficClass passed
  have flowLabel : key.flowLabel.toNat = _ := congrArg FlowTuple.flowLabel passed
  rw [Extracted, trafficClass, flowLabel, hostClass, hostLabel]
  exact swapped_iff (byteAt_lt payload 0) (byteAt_lt payload 1) (byteAt_lt payload 2)
    (byteAt_lt payload 3)

/-! ## When two packets have the same key -/

/-- The words of two headers, compared byte by byte as far as the fourth byte's
high half, which the host takes for flow label bits it masks off. -/
def SameBytes (payload payload' : List UInt8) : Prop :=
  byteAt payload 0 = byteAt payload' 0 ∧ byteAt payload 1 = byteAt payload' 1 ∧
    byteAt payload 2 = byteAt payload' 2 ∧ byteAt payload 3 % 16 = byteAt payload' 3 % 16

section Pair
variable {payload payload' : List UInt8}

theorem passed_same_iff :
    ((hostWord .little payload).toNat / 2 ^ 20 % 2 ^ 8 =
        (hostWord .little payload').toNat / 2 ^ 20 % 2 ^ 8 ∧
      (hostWord .little payload).toNat % 2 ^ 20 = (hostWord .little payload').toNat % 2 ^ 20) ↔
      SameBytes payload payload' := by
  have first := byteAt_lt payload 0
  have second := byteAt_lt payload 1
  have third := byteAt_lt payload 2
  have first' := byteAt_lt payload' 0
  have second' := byteAt_lt payload' 1
  have third' := byteAt_lt payload' 2
  rw [hostClass, hostClass, hostLabel, hostLabel, SameBytes]
  constructor
  · intro both
    obtain ⟨high, low⟩ := both
    refine ⟨?_, ?_, ?_, ?_⟩
    all_goals omega
  · intro same
    obtain ⟨zero, one, two, three⟩ := same
    exact ⟨by omega, by omega⟩

theorem fields_same_iff (o o' : Nat) (protocol protocol' : UInt8) (ipv6 : version payload = 6)
    (ipv6' : version payload' = 6) :
    ((flowTuple payload o protocol).trafficClass = (flowTuple payload' o' protocol').trafficClass ∧
      (flowTuple payload o protocol).flowLabel = (flowTuple payload' o' protocol').flowLabel) ↔
      SameBytes payload payload' ∧ byteAt payload 3 / 16 = byteAt payload' 3 / 16 := by
  have second := byteAt_lt payload 1
  have third := byteAt_lt payload 2
  have fourth := byteAt_lt payload 3
  have second' := byteAt_lt payload' 1
  have third' := byteAt_lt payload' 2
  have fourth' := byteAt_lt payload' 3
  simp only [version] at ipv6 ipv6'
  simp only [flowTuple, SameBytes]
  constructor
  · intro both
    obtain ⟨trafficClass, flowLabel⟩ := both
    refine ⟨⟨?_, ?_, ?_, ?_⟩, ?_⟩
    all_goals omega
  · intro same
    obtain ⟨⟨zero, one, two, low⟩, high⟩ := same
    exact ⟨by omega, by omega⟩

def FlowTuple.SameEnds (tuple tuple' : FlowTuple) : Prop :=
  tuple.source = tuple'.source ∧ tuple.destination = tuple'.destination ∧
    tuple.protocol = tuple'.protocol ∧ tuple.sourcePort = tuple'.sourcePort ∧
    tuple.destinationPort = tuple'.destinationPort

theorem FlowTuple.eq_iff (tuple tuple' : FlowTuple) : tuple = tuple' ↔
    tuple.SameEnds tuple' ∧ tuple.trafficClass = tuple'.trafficClass ∧
      tuple.flowLabel = tuple'.flowLabel := by
  cases tuple
  cases tuple'
  simp only [FlowTuple.mk.injEq, FlowTuple.SameEnds, and_assoc]

theorem merged_iff {o o' : Nat} {protocol protocol' : UInt8} (ipv6 : version payload = 6)
    (ipv6' : version payload' = 6) :
    Merged (flowTuple payload o protocol) (flowTuple payload' o' protocol') ↔
      (flowTuple payload o protocol).SameEnds (flowTuple payload' o' protocol') ∧
        SameBytes payload payload' ∧ byteAt payload 3 / 16 ≠ byteAt payload' 3 / 16 := by
  have second := byteAt_lt payload 1
  have third := byteAt_lt payload 2
  have fourth := byteAt_lt payload 3
  have second' := byteAt_lt payload' 1
  have third' := byteAt_lt payload' 2
  have fourth' := byteAt_lt payload' 3
  simp only [version] at ipv6 ipv6'
  have middle : (flowTuple payload o protocol).flowLabel / 16 % 16 = byteAt payload 3 / 16 := by
    simp only [flowTuple]
    omega
  have middle' : (flowTuple payload' o' protocol').flowLabel / 16 % 16 =
      byteAt payload' 3 / 16 := by
    simp only [flowTuple]
    omega
  rw [Merged, FlowTuple.eq_iff, middle, middle']
  constructor
  · intro merged
    obtain ⟨differ, ends, trafficClass, rest⟩ := merged
    refine ⟨ends, ⟨?_, ?_, ?_, ?_⟩, differ⟩
    all_goals
      simp only [flowTuple] at trafficClass rest
      omega
  · intro same
    obtain ⟨ends, ⟨zero, one, two, low⟩, differ⟩ := same
    refine ⟨differ, ends, ?_, ?_⟩
    all_goals
      simp only [flowTuple]
      omega

/-- The keys of two packets and the tuples of their headers are equal or not
together, unless the packets are of merged flows. -/
theorem same_key_iff {key key' : FlowKey} {tuple tuple' : FlowTuple} (ipv6 : version payload = 6)
    (ipv6' : version payload' = 6) (flow : IsFlow payload tuple) (flow' : IsFlow payload' tuple')
    (passed : keyTuple key = { tuple with
      trafficClass := (hostWord .little payload).toNat / 2 ^ 20 % 2 ^ 8
      flowLabel := (hostWord .little payload).toNat % 2 ^ 20 })
    (passed' : keyTuple key' = { tuple' with
      trafficClass := (hostWord .little payload').toNat / 2 ^ 20 % 2 ^ 8
      flowLabel := (hostWord .little payload').toNat % 2 ^ 20 }) :
    (key = key' ↔ tuple = tuple') ↔ ¬ Merged tuple tuple' := by
  obtain ⟨skipped, o, protocol, _, _, rfl⟩ := flow
  obtain ⟨skipped', o', protocol', _, _, rfl⟩ := flow'
  have keys : key = key' ↔
      (flowTuple payload o protocol).SameEnds (flowTuple payload' o' protocol') ∧
        SameBytes payload payload' := by
    rw [← keyTuple_inj, passed, passed', FlowTuple.eq_iff, ← passed_same_iff]
    exact Iff.rfl
  have tuples := (FlowTuple.eq_iff (flowTuple payload o protocol)
    (flowTuple payload' o' protocol')).trans
      (and_congr_right fun _ => fields_same_iff o o' protocol protocol' ipv6 ipv6')
  have merged := @merged_iff payload payload' o o' protocol protocol' ipv6 ipv6'
  rw [keys, tuples, merged]
  constructor
  · intro exact differ
    exact differ.2.2 (exact.mp ⟨differ.1, differ.2.1⟩).2.2
  · intro alike
    refine ⟨fun same => ⟨same.1, same.2, ?_⟩, fun same => ⟨same.1, same.2.1⟩⟩
    by_contra differ
    exact alike ⟨same.1, same.2, differ⟩

end Pair

/-- On a little-endian host the key of an accepted IPv6 packet has the traffic
class and the flow label of the header exactly when the header's first word is
the same in both byte orders, and two packets have the same key exactly when
they agree, unless they differ in bits 4 to 7 of the flow label and in nothing
else. -/
theorem flow_key_exact_iff {payload payload' : List UInt8} {packet packet' : Packet}
    (accepted : parsePacket .little payload = .ok (true, packet)) (ipv6 : version payload = 6)
    (accepted' : parsePacket .little payload' = .ok (true, packet'))
    (ipv6' : version payload' = 6) :
    ∃ key tuple key' tuple', schedulePacketKey .little payload packet = .ok key ∧
      IsFlow payload tuple ∧ schedulePacketKey .little payload' packet' = .ok key' ∧
      IsFlow payload' tuple' ∧ (Extracted key tuple ↔ Palindromic payload) ∧
      ((key = key' ↔ tuple = tuple') ↔ ¬ Merged tuple tuple') := by
  obtain ⟨key, tuple, keyed, flow, passed⟩ := accepted_key .little accepted
  obtain ⟨key', tuple', keyed', flow', passed'⟩ := accepted_key .little accepted'
  exact ⟨key, tuple, key', tuple', keyed, flow, keyed', flow', extracted_iff flow passed,
    same_key_iff ipv6 ipv6' flow flow' passed passed'⟩

def labelled (label : UInt8) : List UInt8 :=
  [0x60, 0, 0, label, 0, 8, 17, 64] ++ List.replicate 36 0

def labelledPacket : Packet :=
  { Packet.start (labelled 0) with
    len := -4
    rawPacket := 48
    ip6 := some 0
    transportProtocol := 17
    udp := some 40 }

def labelledKey : FlowKey where
  ip6Source := in6addrAny
  ip6Destination := in6addrAny
  transportProtocol := 17
  transportSourcePort := 0
  transportDestinationPort := 0
  trafficClass := 0
  flowLabel := 0x60

theorem isFlow_labelled (label : UInt8) :
    IsFlow (labelled label) (flowTuple (labelled label) 40 17) :=
  ⟨[], 40, 17, .here 40 17, .inr rfl, rfl⟩

theorem flow_key_exact_labelled :
    ∃ key tuple key' tuple', schedulePacketKey .little (labelled 0) labelledPacket = .ok key ∧
      IsFlow (labelled 0) tuple ∧ schedulePacketKey .little (labelled 32) labelledPacket = .ok key' ∧
      IsFlow (labelled 32) tuple' ∧ ¬ Extracted key tuple ∧ ¬ (key = key' ↔ tuple = tuple') := by
  obtain ⟨key, tuple, key', tuple', keyed, flow, keyed', flow', fields, same⟩ :=
    flow_key_exact_iff (by decide +kernel : parsePacket .little (labelled 0) =
      .ok (true, labelledPacket)) (by decide)
      (by decide +kernel : parsePacket .little (labelled 32) = .ok (true, labelledPacket))
      (by decide)
  refine ⟨key, tuple, key', tuple', keyed, flow, keyed', flow', mt fields.mp (by decide), ?_⟩
  rw [same, flow.unique (isFlow_labelled 0), flow'.unique (isFlow_labelled 32), not_not]
  decide

/-- The label 0 is passed as 96, and so is the label 16. -/
theorem flow_labels_merged :
    parsePacket .little (labelled 0) = .ok (true, labelledPacket) ∧
    parsePacket .little (labelled 16) = .ok (true, labelledPacket) ∧
    schedulePacketKey .little (labelled 0) labelledPacket = .ok labelledKey ∧
    schedulePacketKey .little (labelled 16) labelledPacket = .ok labelledKey ∧
    (∀ tuple, IsFlow (labelled 0) tuple → tuple.flowLabel = 0 ∧ ¬ Extracted labelledKey tuple) ∧
    ∀ tuple tuple', IsFlow (labelled 0) tuple → IsFlow (labelled 16) tuple' → tuple ≠ tuple' := by
  refine ⟨by decide +kernel, by decide +kernel, by decide +kernel, by decide +kernel, ?_, ?_⟩
  · intro tuple flow
    rw [flow.unique (isFlow_labelled 0)]
    exact ⟨by decide, fun extracted => absurd extracted.2 (by decide)⟩
  · intro tuple tuple' flow flow'
    rw [flow.unique (isFlow_labelled 0), flow'.unique (isFlow_labelled 16)]
    decide

theorem extracted_big {payload : List UInt8} {packet : Packet}
    (accepted : parsePacket .big payload = .ok (true, packet)) :
    ∃ key tuple, schedulePacketKey .big payload packet = .ok key ∧ IsFlow payload tuple ∧
      keyTuple key = tuple := by
  obtain ⟨key, tuple, keyed, flow, passed⟩ := accepted_key .big accepted
  refine ⟨key, tuple, keyed, flow, ?_⟩
  obtain ⟨skipped, o, protocol, _, _, rfl⟩ := flow
  have second := byteAt_lt payload 1
  have third := byteAt_lt payload 2
  have fourth := byteAt_lt payload 3
  have word : (hostWord .big payload).toNat = byteAt payload 3 + byteAt payload 2 * 2 ^ 8 +
      byteAt payload 1 * 2 ^ 16 + byteAt payload 0 * 2 ^ 24 := join32_toNat _ _ _ _
  have high : (hostWord .big payload).toNat / 2 ^ 20 =
      byteAt payload 0 * 16 + byteAt payload 1 / 16 := by
    omega
  rw [passed, high, word, FlowTuple.eq_iff]
  refine ⟨⟨rfl, rfl, rfl, rfl, rfl⟩, ?_, ?_⟩
  all_goals
    simp only [flowTuple]
    omega

theorem processQueuePacket_accepted {order : ByteOrder} {payload : List UInt8} {packet : Packet}
    (accepted : parsePacket order payload = .ok (true, packet))
    (marks : List (In6Addr × UInt32)) (d : Daemon) (s : FlowMob) (rand : Nat) (alloc node : Bool) :
    ∃ key, schedulePacketKey order payload packet = .ok key ∧
      processQueuePacket order marks d s payload rand alloc node =
        .ok (s.schedulePacket marks d key rand alloc node) := by
  obtain ⟨key, _, keyed, _⟩ := accepted_key order accepted
  refine ⟨key, keyed, ?_⟩
  simp only [processQueuePacket, accepted, Runs.ok_bind, if_true, keyed]
  rfl

end OaiPmip.Packets
