import Mathlib.Algebra.Order.Ring.Int
import Mathlib.Tactic.Common

/-!
# Data types of the proxy mobile IPv6 daemon

Addresses, network access identifiers and times as the C structures hold them,
with the address arithmetic of pmip_hnp_cache.c, pmip_handler.c and
pmip_msgs.c.  An address is its sixteen bytes in network order and an
identifier its `NAI_SIZE` bytes; both carry their length.
-/

set_option autoImplicit false

namespace OaiPmip

structure Octets (n : Nat) where
  bytes : List UInt8
  size : bytes.length = n
  deriving DecidableEq

namespace Octets

variable {n : Nat}

theorem ext_bytes {a b : Octets n} (same : a.bytes = b.bytes) : a = b := by
  cases a
  cases b
  simp only at same
  subst same
  rfl

/-- `memset(&x, 0, sizeof x)`. -/
def zero (n : Nat) : Octets n := ⟨List.replicate n 0, List.length_replicate⟩

def get (o : Octets n) (i : Nat) : UInt8 := o.bytes.getD i 0

instance : Inhabited (Octets n) := ⟨zero n⟩

end Octets

abbrev In6Addr := Octets 16

/-- `ip6mn_nai_t`. -/
abbrev Nai := Octets 63

def in6addrAny : In6Addr := Octets.zero 16

def in6addrLoopback : In6Addr := ⟨[0, 0, 0, 0, 0, 0, 0, 0, 0, 0, 0, 0, 0, 0, 0, 1], rfl⟩

def isUnspecified (a : In6Addr) : Bool := a = in6addrAny

/-- `s6_addr32[i]` on a little-endian host. -/
def s6Addr32 (a : In6Addr) (i : Nat) : UInt32 :=
  (a.get (4 * i)).toUInt32 ||| (a.get (4 * i + 1)).toUInt32 <<< 8 |||
    (a.get (4 * i + 2)).toUInt32 <<< 16 ||| (a.get (4 * i + 3)).toUInt32 <<< 24

def eui64ToEui48 (iid : In6Addr) : In6Addr :=
  ⟨[0, 0, 0, 0, 0, 0, 0, 0, 0, 0, iid.get 8 ^^^ 0x02, iid.get 9, iid.get 10,
    iid.get 13, iid.get 14, iid.get 15], rfl⟩

def eui48ToEui64 (macaddr : In6Addr) : In6Addr :=
  ⟨[0, 0, 0, 0, 0, 0, 0, 0, macaddr.get 10 ^^^ 0x02, macaddr.get 11,
    macaddr.get 12, 0xFF, 0xFE, macaddr.get 13, macaddr.get 14, macaddr.get 15], rfl⟩

/-- `CONVERT_ID2ADDR`: the prefix's first half and the identifier's second half. -/
def convertId2Addr (pfx id : In6Addr) : In6Addr :=
  ⟨pfx.bytes.take 8 ++ id.bytes.drop 8, by simp [pfx.size, id.size]⟩

def getNodeId (mnAddr : In6Addr) : In6Addr :=
  ⟨List.replicate 8 0 ++ mnAddr.bytes.drop 8, by simp [mnAddr.size]⟩

/-- `get_node_prefix` with `PREFIX_LENGTH` 64. -/
def getNodePrefix (mnAddr : In6Addr) : In6Addr :=
  ⟨mnAddr.bytes.take 8 ++ List.replicate 8 0, by simp [mnAddr.size]⟩

def linkLocalAddr (id : In6Addr) : In6Addr :=
  ⟨[0xfe, 0x80, 0, 0, 0, 0, 0, 0] ++ id.bytes.drop 8, by simp [id.size]⟩

/-! ## Times -/

structure Timespec where
  tvSec : Int
  tvNsec : Int
  deriving DecidableEq

instance : Inhabited Timespec := ⟨⟨0, 0⟩⟩

def timeSecNsec : Int := 1000000000

def tsisset (t : Timespec) : Bool := t.tvSec ≠ 0 || t.tvNsec ≠ 0

def tsadd (a b : Timespec) : Timespec :=
  if a.tvNsec + b.tvNsec ≥ timeSecNsec then
    ⟨a.tvSec + b.tvSec + 1, a.tvNsec + b.tvNsec - timeSecNsec⟩
  else ⟨a.tvSec + b.tvSec, a.tvNsec + b.tvNsec⟩

theorem tsisset_tsadd {now delay : Timespec} (epoch : 0 < now.tvSec) (forward : 0 ≤ delay.tvSec) :
    tsisset (tsadd now delay) = true := by
  unfold tsisset tsadd
  split
  · have later : now.tvSec + delay.tvSec + 1 ≠ 0 := by omega
    simp [later]
  · have later : now.tvSec + delay.tvSec ≠ 0 := by omega
    simp [later]

/-- `tsafter(a, b)` is `tscmp(a, b, <)`: `b` is after `a`. -/
def tsafter (a b : Timespec) : Bool :=
  if a.tvSec = b.tvSec then a.tvNsec < b.tvNsec else a.tvSec < b.tvSec

/-- `tsbefore(a, b)` is `tscmp(a, b, >)`: `b` is before `a`. -/
def tsbefore (a b : Timespec) : Bool :=
  if a.tvSec = b.tvSec then a.tvNsec > b.tvNsec else a.tvSec > b.tvSec

structure Ip6ts where
  first : UInt32
  second : UInt32
  deriving DecidableEq

/-! ## Event and entry codes, configuration -/

/-- The `msg_event` codes of pmip_consts.h; `other` is any further value of the
field, zero after `bzero` included. -/
inductive MsgEvent where
  | hasDEREG
  | hasWLCCP
  | hasODTONELinkEvent
  | hasRS
  | hasNA
  | hasPBU
  | hasPBA
  | other (code : UInt32)
  deriving DecidableEq

/-- The `BCE_*` entry types of pmip_cache.h. -/
inductive BceType where
  | noEntry
  | pmip
  | temp
  deriving DecidableEq

/-- `msg_info_t`: the fields that the state machines and their helpers read. -/
structure MsgInfo where
  src : In6Addr
  dst : In6Addr
  iif : Int
  msgEvent : MsgEvent
  mnIid : In6Addr
  mnNai : Nai
  mnPrefix : In6Addr
  mnServMagAddr : In6Addr
  mnLinkLocalAddr : In6Addr
  lifetime : Timespec
  seqno : UInt16
  pbuFlags : UInt16
  pbaFlags : UInt8
  timestamp : Ip6ts
  deriving DecidableEq

/-- `bzero(info, sizeof(msg_info_t))`. -/
def MsgInfo.zero : MsgInfo where
  src := in6addrAny
  dst := in6addrAny
  iif := 0
  msgEvent := .other 0
  mnIid := in6addrAny
  mnNai := Octets.zero 63
  mnPrefix := in6addrAny
  mnServMagAddr := in6addrAny
  mnLinkLocalAddr := in6addrAny
  lifetime := ⟨0, 0⟩
  seqno := 0
  pbuFlags := 0
  pbaFlags := 0
  timestamp := ⟨0, 0⟩

/-- The two values of `mip6_entity` that run the proxy code: `is_ha()` is the
local mobility anchor and `is_mag()` the access gateway. -/
inductive Mip6Entity where
  | ha
  | mag
  deriving DecidableEq

/-- The settings of `conf` that the proxy code reads, and `g_ingress_iif`. -/
structure Conf where
  mip6Entity : Mip6Entity
  ingressIif : Int
  ourAddress : In6Addr
  lmaAddress : In6Addr
  magAddressEgress : In6Addr
  pbuLifeTime : Timespec
  retransmissionTimeOut : Timespec
  maxMessageRetransmissions : Int
  tunnelingEnabled : Bool
  dynamicTunnelingEnabled : Bool
  maxDelayBeforeDynamicTunnelingDelete : Timespec

/-- `conf_default`, with the role that the configuration file sets. -/
def confDefault (mip6Entity : Mip6Entity) : Conf where
  mip6Entity := mip6Entity
  ingressIif := 0
  ourAddress := in6addrLoopback
  lmaAddress := in6addrLoopback
  magAddressEgress := in6addrLoopback
  pbuLifeTime := ⟨40, 0⟩
  retransmissionTimeOut := ⟨1, 0⟩
  maxMessageRetransmissions := 5
  tunnelingEnabled := false
  dynamicTunnelingEnabled := false
  maxDelayBeforeDynamicTunnelingDelete := ⟨60, 0⟩

/-- The defaults with `TunnelingEnabled` and `DynamicTunnelingEnabled` set. -/
def confDynamic (mip6Entity : Mip6Entity) : Conf :=
  { confDefault mip6Entity with tunnelingEnabled := true, dynamicTunnelingEnabled := true }

end OaiPmip
