import OaiPmip.CacheFrame
import OaiPmip.MhCodec

/-!
# Round trips of updates and acknowledgements

What a receiver reads out of the bytes that `mh_send_pbu` and `mh_send_pba`
send, for sender and receiver of one byte order.
-/

set_option autoImplicit false

namespace OaiPmip.Msgs

open OaiPmip.Wire OaiPmip.Daemon

def IsIid (suffix : In6Addr) : Prop := suffix.bytes.take 8 = List.replicate 8 0

instance (suffix : In6Addr) : Decidable (IsIid suffix) :=
  inferInstanceAs (Decidable (suffix.bytes.take 8 = List.replicate 8 0))

theorem IsIid.restored {suffix : In6Addr} (iid : IsIid suffix) :
    iidOf (mnidOf suffix) = suffix := by
  apply Octets.ext_bytes
  change List.replicate 8 0 ++ suffix.bytes.drop 8 = suffix.bytes
  rw [← iid]
  exact List.take_append_drop 8 suffix.bytes

theorem encodeLifetime_decoded (lifetime : Timespec) :
    ((4 * (encodeLifetime lifetime).toNat : Nat) : Int) = 4 * (lifetime.tvSec / 4 % 2 ^ 16) := by
  have field : (encodeLifetime lifetime).toNat = ((lifetime.tvSec / 4) % 2 ^ 16).toNat := by
    rw [encodeLifetime, UInt16.toNat_ofNat']
    omega
  rw [field]
  omega

theorem encodeLifetime_toNat {lifetime : Timespec} (least : 0 ≤ lifetime.tvSec)
    (most : lifetime.tvSec < 2 ^ 18) :
    ((4 * (encodeLifetime lifetime).toNat : Nat) : Int) = 4 * (lifetime.tvSec / 4) := by
  rw [encodeLifetime_decoded]
  omega

def arriving (bytes : List UInt8) (src dst : In6Addr) (iif : Int) : Received where
  mh := fun i => bytes.getD i 0
  len := bytes.length
  src := src
  dst := dst
  iif := iif

theorem arriving_carries (bytes : List UInt8) (src dst : In6Addr) (iif : Int) :
    Carries (arriving bytes src dst iif) bytes := by
  refine ⟨rfl, ?_⟩
  intro i inside _ _
  change bytes[i]? = some (bytes.getD i 0)
  rw [List.getD_eq_getElem?_getD, List.getElem?_eq_getElem inside]
  rfl

/-! ## Updates -/

/-- The fields of an update in the record that the parser fills. -/
structure PbuDecoded (e : PmipEntry) (sec : Int) (info : MsgInfo) : Prop where
  mnNai : info.mnNai = e.mnNai
  mnPrefix : info.mnPrefix = e.mnPrefix
  mnIid : info.mnIid = e.mnSuffix
  timestamp : info.timestamp = e.timestamp
  seqno : info.seqno = e.seqnoOut
  lifetime : info.lifetime.tvSec = 4 * (sec / 4)

theorem mhPbuParseOn_carried {m : Received} {order : ByteOrder} {pbu : Pbu} {conf : Conf}
    (carried : Carries m (pbuBytes order pbu)) (mine : m.dst = conf.lmaAddress)
    (dupBeyond : Nat → Bool) (info : MsgInfo) :
    mhPbuParseOn order conf dupBeyond info m =
      { pbuAddresses info m.src m.dst m.iif with
        mnNai := pbu.mnNai
        mnPrefix := pbu.mnPrefix
        mnIid := iidOf pbu.mnId
        timestamp := pbu.timestamp.getD info.timestamp
        pbuFlags := order.net16 pbu.flags
        lifetime := { info.lifetime with tvSec := 4 * pbu.lifetime.toNat }
        seqno := pbu.seqno
        msgEvent := .hasPBU } := by
  simp only [mhPbuParseOn, if_pos mine, decodePbuOn_carried carried dupBeyond]
  rfl

/-- Whatever an entry holds, the receiver accepts the options of the update
that is sent for it and reads the entry's fields and the lifetime, cut to a
multiple of four, out of it. -/
theorem pbu_decode_encode (order : ByteOrder) (dupBeyond : Nat → Bool) (conf : Conf) (d : Daemon)
    (env : Env) (src dst : In6Addr) (bce : Nat) (lifetime : Timespec)
    (memory : env.mhAlloc = true) (iid : IsIid (d.heap bce).mnSuffix)
    (least : 0 ≤ lifetime.tvSec) (most : lifetime.tvSec < 2 ^ 18) :
    ∃ pbu, (d.mhSendPbu env src dst bce lifetime).log = .sendPbu src dst pbu 0 :: d.log ∧
      ∀ m : Received, Carries m (pbuBytes order pbu) →
        (mhOptParse dupBeyond m.mh m.len 12).isSome ∧
        (m.dst = conf.lmaAddress →
          PbuDecoded ((d.mhSendPbu env src dst bce lifetime).heap bce) lifetime.tvSec
            (mhPbuParseOn order conf dupBeyond MsgInfo.zero m)) := by
  refine ⟨pbuOf d env bce lifetime, mhSendPbu_log d memory src dst bce lifetime, ?_⟩
  intro m carried
  constructor
  · have decoded := decodePbuOn_carried carried dupBeyond
    rw [decodePbuOn] at decoded
    split at decoded
    · cases decoded
    · obtain ⟨mhOpts, parsed, _⟩ := Option.map_eq_some_iff.mp decoded
      exact Option.isSome_of_eq_some parsed
  · intro mine
    rw [mhPbuParseOn_carried carried mine, mhSendPbu_entry d memory]
    exact {
      mnNai := rfl
      mnPrefix := rfl
      mnIid := iid.restored
      timestamp := pbuOf_timestamp d env bce lifetime
      seqno := rfl
      lifetime := encodeLifetime_toNat least most }

def sentEntry : PmipEntry :=
  { PmipEntry.blank .pmip with
    mnNai := ⟨List.replicate 63 0x1B, rfl⟩
    mnPrefix := ⟨List.replicate 16 0x01, rfl⟩
    mnSuffix := ⟨List.replicate 8 0 ++ List.replicate 8 0x16, rfl⟩
    timestamp := ⟨0x0801, 0x1B08⟩
    seqnoIn := 0xFFFF
    pbaFlags := 0x20 }

def sender : Daemon := { Daemon.init Tunnels.init [] with heap := fun _ => sentEntry, sequence := 65535 }

theorem pbu_decode_encode_sent : IsIid (sender.heap 0).mnSuffix ∧
    ∃ pbu, (sender.mhSendPbu (Env.ample ⟨1700000000, 0⟩ 5) in6addrLoopback in6addrLoopback 0
        ⟨43, 0⟩).log = [.sendPbu in6addrLoopback in6addrLoopback pbu 0] ∧
      PbuDecoded ((sender.mhSendPbu (Env.ample ⟨1700000000, 0⟩ 5) in6addrLoopback in6addrLoopback 0
          ⟨43, 0⟩).heap 0) 43
        (mhPbuParseOn .big (confDefault .ha) (fun _ => false) MsgInfo.zero
          (arriving (pbuBytes .big pbu) in6addrLoopback in6addrLoopback 2)) := by
  refine ⟨by decide, ?_⟩
  obtain ⟨pbu, sent, decodes⟩ := pbu_decode_encode .big (fun _ => false) (confDefault .ha) sender
    (Env.ample ⟨1700000000, 0⟩ 5) in6addrLoopback in6addrLoopback 0 ⟨43, 0⟩ rfl (by decide)
    (by decide) (by decide)
  exact ⟨pbu, sent, (decodes _ (arriving_carries _ _ _ _)).2 rfl⟩

/-! ## Acknowledgements -/

structure PbaDecoded (e : PmipEntry) (sec : Int) (info : MsgInfo) : Prop where
  mnNai : info.mnNai = e.mnNai
  mnPrefix : info.mnPrefix = e.mnPrefix
  mnIid : info.mnIid = e.mnSuffix
  timestamp : info.timestamp = e.timestamp
  seqno : info.seqno = e.seqnoIn
  lifetime : info.lifetime.tvSec = 4 * (sec / 4)
  pbaFlags : info.pbaFlags = e.pbaFlags

theorem mhPbaParseOn_carried {m : Received} {order : ByteOrder} {pba : Pba}
    (carried : Carries m (pbaBytes order pba)) (dupBeyond : Nat → Bool) (info : MsgInfo) :
    mhPbaParseOn order dupBeyond info m =
      { info with
        src := m.src
        dst := m.dst
        iif := m.iif
        mnNai := pba.mnNai
        mnPrefix := pba.mnPrefix
        mnIid := iidOf pba.mnId
        timestamp := pba.timestamp
        pbaFlags := (order.net16 pba.flags.toUInt16).toUInt8
        lifetime := { info.lifetime with tvSec := 4 * pba.lifetime.toNat }
        seqno := pba.seqno
        msgEvent := .hasPBA } := by
  simp only [mhPbaParseOn, decodePbaOn_carried carried dupBeyond]
  rfl

theorem swapped_flags (flags : UInt8) : (swap16 flags.toUInt16).toUInt8 = 0 := by
  apply UInt8.toNat_inj.mp
  have bound := flags.toNat_lt
  change (swap16 flags.toUInt16).toNat % 2 ^ 8 = 0
  have split : (swap16 flags.toUInt16).toNat =
      flags.toNat / 2 ^ 8 + flags.toNat % 2 ^ 8 * 2 ^ 8 := swap16_toNat flags.toUInt16
  have upper : flags.toNat / 2 ^ 8 = 0 := Nat.div_eq_of_lt bound
  rw [split, upper, Nat.zero_add]
  exact Nat.mul_mod_left _ _

theorem converted_flags (order : ByteOrder) (flags : UInt8) :
    (order.net16 flags.toUInt16).toUInt8 = flags ↔ order = .big ∨ flags = 0 := by
  cases order with
  | little =>
      change (swap16 flags.toUInt16).toUInt8 = flags ↔ _
      rw [swapped_flags]
      constructor
      · intro zero
        exact Or.inr zero.symm
      · intro either
        rcases either with other | zero
        · cases other
        · exact zero.symm
  | big =>
      constructor
      · intro _
        exact Or.inl rfl
      · intro _
        apply UInt8.toNat_inj.mp
        exact Nat.mod_eq_of_lt flags.toNat_lt

/-- Of the fields of an acknowledgement only the flags can be lost: a
little-endian receiver keeps them when they are zero. -/
theorem pba_decode_encode (order : ByteOrder) (dupBeyond : Nat → Bool) (d : Daemon) (env : Env)
    (src dst : In6Addr) (bce : Nat) (lifetime : Timespec) (memory : env.mhAlloc = true)
    (iid : IsIid (d.heap bce).mnSuffix) (least : 0 ≤ lifetime.tvSec)
    (most : lifetime.tvSec < 2 ^ 18) :
    ∃ pba, (d.mhSendPba env src dst bce lifetime).log = .sendPba src dst pba 0 :: d.log ∧
      ∀ (m : Received) (stack : MsgInfo), Carries m (pbaBytes order pba) →
        (PbaDecoded (d.heap bce) lifetime.tvSec (mhPbaParseOn order dupBeyond stack m) ↔
          order = .big ∨ (d.heap bce).pbaFlags = 0) := by
  refine ⟨pbaOf (d.heap bce) lifetime, mhSendPba_log d memory src dst bce lifetime, ?_⟩
  intro m stack carried
  rw [mhPbaParseOn_carried carried, ← converted_flags]
  constructor
  · intro decoded
    exact decoded.pbaFlags
  · intro kept
    exact {
      mnNai := rfl
      mnPrefix := rfl
      mnIid := iid.restored
      timestamp := rfl
      seqno := rfl
      lifetime := encodeLifetime_toNat least most
      pbaFlags := kept }

theorem pba_decode_encode_sent : IsIid (sender.heap 0).mnSuffix ∧
    ∃ pba, (sender.mhSendPba (Env.ample ⟨1700000000, 0⟩ 5) in6addrLoopback in6addrLoopback 0
        ⟨43, 0⟩).log = [.sendPba in6addrLoopback in6addrLoopback pba 0] ∧
      PbaDecoded sentEntry 43 (mhPbaParseOn .big (fun _ => false) MsgInfo.zero
        (arriving (pbaBytes .big pba) in6addrLoopback in6addrLoopback 2)) := by
  refine ⟨by decide, ?_⟩
  obtain ⟨pba, sent, decodes⟩ := pba_decode_encode .big (fun _ => false) sender
    (Env.ample ⟨1700000000, 0⟩ 5) in6addrLoopback in6addrLoopback 0 ⟨43, 0⟩ rfl (by decide)
    (by decide) (by decide)
  exact ⟨pba, sent, (decodes _ _ (arriving_carries _ _ _ _)).mpr (Or.inl rfl)⟩

/-- Two little-endian hosts lose the flags. -/
theorem pba_flags_lost :
    ∃ pba, (sender.mhSendPba (Env.ample ⟨1700000000, 0⟩ 5) in6addrLoopback in6addrLoopback 0
        ⟨43, 0⟩).log = [.sendPba in6addrLoopback in6addrLoopback pba 0] ∧
      (sender.heap 0).pbaFlags = 0x20 ∧
      (mhPbaParseOn .little (fun _ => false) MsgInfo.zero
        (arriving (pbaBytes .little pba) in6addrLoopback in6addrLoopback 2)).pbaFlags = 0 ∧
      ¬ PbaDecoded (sender.heap 0) 43 (mhPbaParseOn .little (fun _ => false) MsgInfo.zero
        (arriving (pbaBytes .little pba) in6addrLoopback in6addrLoopback 2)) := by
  have lost : (mhPbaParseOn .little (fun _ => false) MsgInfo.zero
      (arriving (pbaBytes .little (pbaOf sentEntry ⟨43, 0⟩)) in6addrLoopback in6addrLoopback
        2)).pbaFlags = 0 := by
    rw [mhPbaParseOn_carried (arriving_carries _ _ _ _)]
    exact swapped_flags 0x20
  refine ⟨pbaOf sentEntry ⟨43, 0⟩, mhSendPba_log sender rfl _ _ _ _, rfl, lost, ?_⟩
  intro decoded
  have kept := decoded.pbaFlags
  rw [lost] at kept
  exact absurd kept (by decide)

theorem magForceUpdateRegistration_log (conf : Conf) (d : Daemon) {env : Env} (bce : Nat)
    (memory : env.mhAlloc = true) :
    ∃ pbu, pbu.lifetime = encodeLifetime conf.pbuLifeTime ∧
      (d.magForceUpdateRegistration conf env bce).log =
        .sendPbu conf.magAddressEgress conf.lmaAddress pbu 0 :: d.log := by
  have stopped : (if (d.tun.tq.task (.bce bce)).isSome then d.delTask bce
      else d.touch [bce]).log = d.log := by
    split
    · rfl
    · rfl
  refine ⟨_, ?_, (mhSendPbu_log _ memory _ _ bce _).trans (congrArg _ stopped)⟩
  rfl

/-- What a refreshed registration asks for: the anchor reads a registration, and
no more than the configured lifetime. -/
structure AsksWithin (lifetime : Timespec) (info : MsgInfo) : Prop where
  registers : info.msgEvent = .hasPBU ∧ info.lifetime.tvSec > 0
  within : info.lifetime.tvSec ≤ lifetime.tvSec

/-- A configured lifetime is asked for exactly when the sixteen bits of its
units of four seconds are not all zero. -/
theorem forced_update_lifetime_iff (order : ByteOrder) (dupBeyond : Nat → Bool) (conf lma : Conf)
    (d : Daemon) (env : Env) (bce : Nat) (memory : env.mhAlloc = true)
    (positive : 0 < conf.pbuLifeTime.tvSec) :
    ∃ pbu, (d.magForceUpdateRegistration conf env bce).log =
        .sendPbu conf.magAddressEgress conf.lmaAddress pbu 0 :: d.log ∧
      ∀ m : Received, Carries m (pbuBytes order pbu) → m.dst = lma.lmaAddress →
        (AsksWithin conf.pbuLifeTime (mhPbuParseOn order lma dupBeyond MsgInfo.zero m) ↔
          conf.pbuLifeTime.tvSec / 4 % 2 ^ 16 ≠ 0) := by
  obtain ⟨pbu, lifetime, sent⟩ := magForceUpdateRegistration_log conf d bce memory
  refine ⟨pbu, sent, ?_⟩
  intro m carried mine
  have decoded := encodeLifetime_decoded conf.pbuLifeTime
  rw [← lifetime] at decoded
  rw [mhPbuParseOn_carried carried mine]
  constructor
  · intro asks
    have some : (4 * pbu.lifetime.toNat : Int) > 0 := asks.registers.2
    omega
  · intro some
    have least : (4 * pbu.lifetime.toNat : Int) > 0 := by omega
    have most : (4 * pbu.lifetime.toNat : Int) ≤ conf.pbuLifeTime.tvSec := by omega
    exact ⟨⟨rfl, least⟩, most⟩

def refreshing (sec : Int) : Conf := { confDefault .mag with pbuLifeTime := ⟨sec, 0⟩ }

theorem forced_update_lifetime_default :
    ∃ pbu, (sender.magForceUpdateRegistration (refreshing 40) (Env.ample ⟨1700000000, 0⟩ 5) 0).log =
        [.sendPbu in6addrLoopback in6addrLoopback pbu 0] ∧
      AsksWithin ⟨40, 0⟩ (mhPbuParseOn .little (confDefault .ha) (fun _ => false) MsgInfo.zero
        (arriving (pbuBytes .little pbu) in6addrLoopback in6addrLoopback 2)) := by
  obtain ⟨pbu, sent, asks⟩ := forced_update_lifetime_iff .little (fun _ => false) (refreshing 40)
    (confDefault .ha) sender (Env.ample ⟨1700000000, 0⟩ 5) 0 rfl (by decide)
  exact ⟨pbu, sent, (asks _ (arriving_carries _ _ _ _) rfl).mpr (by decide)⟩

/-- A lifetime of three seconds is sent as zero. -/
theorem forced_update_three_seconds :
    ∃ pbu, (sender.magForceUpdateRegistration (refreshing 3) (Env.ample ⟨1700000000, 0⟩ 5) 0).log =
        [.sendPbu in6addrLoopback in6addrLoopback pbu 0] ∧
      (mhPbuParseOn .little (confDefault .ha) (fun _ => false) MsgInfo.zero
        (arriving (pbuBytes .little pbu) in6addrLoopback in6addrLoopback 2)).lifetime = ⟨0, 0⟩ ∧
      ¬ AsksWithin ⟨3, 0⟩ (mhPbuParseOn .little (confDefault .ha) (fun _ => false) MsgInfo.zero
        (arriving (pbuBytes .little pbu) in6addrLoopback in6addrLoopback 2)) := by
  obtain ⟨pbu, lifetime, sent⟩ := magForceUpdateRegistration_log (refreshing 3) sender 0
    (rfl : (Env.ample ⟨1700000000, 0⟩ 5).mhAlloc = true)
  have zero : (mhPbuParseOn .little (confDefault .ha) (fun _ => false) MsgInfo.zero
      (arriving (pbuBytes .little pbu) in6addrLoopback in6addrLoopback 2)).lifetime = ⟨0, 0⟩ := by
    have mine : (arriving (pbuBytes .little pbu) in6addrLoopback in6addrLoopback 2).dst =
        (confDefault .ha).lmaAddress := rfl
    rw [mhPbuParseOn_carried (arriving_carries _ _ _ _) mine, lifetime]
    rfl
  refine ⟨pbu, sent, zero, ?_⟩
  intro asks
  have some := asks.registers.2
  rw [zero] at some
  exact absurd some (by decide)

end OaiPmip.Msgs
