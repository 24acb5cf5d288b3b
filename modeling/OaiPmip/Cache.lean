import OaiPmip.PmipTunnel

/-!
# The daemon's state and the binding cache, pmip_cache.c

Entries live in a heap.  `live` holds for the addresses that `pmip_cache_alloc`
returned and `pmipcache_free` has not taken back; an address is never handed
out twice.  The nodes of `g_pmip_hash` point into the entries, so a key is read
through the heap.  Every function that reads or writes an entry, the walk along
a chain included, notes the entries it finds released in `freedUses`.

What the daemon asks of the kernel and sends to the network is appended to
`log`, newest first.
-/

set_option autoImplicit false

namespace OaiPmip

open OaiPmip.ChainTable OaiPmip.HashChains OaiPmip.HashKeys

/-- A proxy binding update as `mh_send_pbu` builds it: the fixed header and the
options that the receiver reads. -/
structure Pbu where
  seqno : UInt16
  flags : UInt16
  lifetime : UInt16
  mnNai : Nai
  mnPrefix : In6Addr
  mnId : Octets 8
  timestamp : Option Ip6ts
  deriving DecidableEq

/-- A proxy binding acknowledgement as `mh_send_pba` builds it. -/
structure Pba where
  status : UInt8
  flags : UInt8
  seqno : UInt16
  lifetime : UInt16
  mnNai : Nai
  mnPrefix : In6Addr
  mnId : Octets 8
  timestamp : Ip6ts
  deriving DecidableEq

/-- `pmip_entry_t`.  `mhVec` is the message kept for retransmission, `none`
while `mh_vec[0].iov_base` is null; the queue element is `TqElem.bce`. -/
structure PmipEntry where
  bid : Int
  mnNai : Nai
  mnPrefix : In6Addr
  ourAddr : In6Addr
  mnSuffix : In6Addr
  mnHwAddress : In6Addr
  mnAddr : In6Addr
  mnServMagAddr : In6Addr
  mnServLmaAddr : In6Addr
  mnLinkLocalAddr : In6Addr
  addTime : Timespec
  lifetime : Timespec
  seqnoIn : UInt16
  seqnoOut : UInt16
  pbuFlags : UInt16
  pbaFlags : UInt8
  type : BceType
  tunnel : Int
  link : Int
  mhVec : Option Pbu
  status : UInt8
  timestamp : Ip6ts
  nRetsCounter : Int
  deriving DecidableEq

/-- An entry after `memset`, with its type. -/
def PmipEntry.blank (type : BceType) : PmipEntry where
  bid := 0
  mnNai := Octets.zero 63
  mnPrefix := in6addrAny
  ourAddr := in6addrAny
  mnSuffix := in6addrAny
  mnHwAddress := in6addrAny
  mnAddr := in6addrAny
  mnServMagAddr := in6addrAny
  mnServLmaAddr := in6addrAny
  mnLinkLocalAddr := in6addrAny
  addTime := ⟨0, 0⟩
  lifetime := ⟨0, 0⟩
  seqnoIn := 0
  seqnoOut := 0
  pbuFlags := 0
  pbaFlags := 0
  type := type
  tunnel := 0
  link := 0
  mhVec := none
  status := 0
  timestamp := ⟨0, 0⟩
  nRetsCounter := 0

def PmipEntry.key (e : PmipEntry) : PmipKey := ⟨e.mnNai, e.mnServMagAddr⟩

/-- `RT6_TABLE_PMIP` and `RT6_TABLE_MIP6`. -/
inductive RtTable where
  | pmip
  | mip6
  deriving DecidableEq

/-- One call out of the daemon.  `tunnelDel` also names the MAG that the entry
is served by whose tunnel is released. -/
inductive Effect where
  | routeAdd (oif : Int) (table : RtTable) (dst : In6Addr) (dstLen : Nat)
  | routeDel (oif : Int) (table : RtTable) (dst : In6Addr) (dstLen : Nat)
  | ruleAdd (table : RtTable) (prio : Nat) (src : In6Addr) (srcLen : Nat) (dst : In6Addr)
      (dstLen : Nat)
  | ruleDel (table : RtTable) (prio : Nat) (src : In6Addr) (srcLen : Nat) (dst : In6Addr)
      (dstLen : Nat)
  | tunnelAdd (remote : In6Addr) (tunnel : Int)
  | tunnelDel (mag : In6Addr) (tunnel : Int)
  | sendPbu (src dst : In6Addr) (pbu : Pbu) (oif : Int)
  | sendPba (src dst : In6Addr) (pba : Pba) (oif : Int)
  | sendRa (link : Int) (dst : In6Addr) (mnPrefix : In6Addr)
  | sendNs (link : Int) (target : In6Addr)
  | linkUp (mnNai : Nai) (mag : In6Addr)
  | linkDown (mnNai : Nai) (mag : In6Addr)
  deriving DecidableEq

structure MnidHnp where
  mnPrefix : In6Addr
  mnIid : In6Addr
  mnNai : Nai
  deriving DecidableEq

/-- `struct route` of fmpmip_client_route.c with the addresses of its list of
MAGs. -/
structure ClientRoute where
  clientNai : Nai
  mags : List In6Addr
  deriving DecidableEq

/-- The attributes of a RADIUS reply that `mnid_hnp_map` reads.  The prefix is
already cut to its netmask; `stack` is what the uninitialised `prefix` holds. -/
structure RadiusReply where
  framedIpv6Prefix : Option In6Addr
  framedInterfaceId : Option (Octets 8)
  mobileNodeIdentifier : Option (List UInt8)
  stack : In6Addr

/-- What the clock, the allocator, the kernel and the RADIUS server answer
while one event is handled. -/
structure Env where
  now : Timespec
  timeOfDay : Option (Nat × Nat)
  entryAlloc : Bool
  nodeAlloc : Bool
  mhAlloc : Bool
  clientAlloc : Bool
  magAlloc : Bool
  tunnel : TunnelEnv
  radius : Option RadiusReply

/-- Memory is there, the kernel makes the tunnel `ifindex`, and the RADIUS
server does not answer. -/
def Env.ample (now : Timespec) (ifindex : Int) : Env where
  now := now
  timeOfDay := some (now.tvSec.toNat, 0)
  entryAlloc := true
  nodeAlloc := true
  mhAlloc := true
  clientAlloc := true
  magAlloc := true
  tunnel := ⟨some ifindex, true⟩
  radius := none

abbrev pmipCacheBuckets : Nat := 128

instance : NeZero pmipCacheBuckets := ⟨by decide⟩

structure Daemon where
  heap : Nat → PmipEntry
  live : Nat → Bool
  top : Nat
  hash : Table pmipCacheBuckets Nat
  count : Int
  lastBid : Int
  tun : Tunnels
  hnp : List MnidHnp
  clients : List ClientRoute
  sequence : Nat
  log : List Effect
  freedUses : List Nat

abbrev Outcome := Except (Crash × Daemon) Daemon

namespace Daemon

/-- The state after `pmip_cache_init`, with the tunnels and the prefix map that
the role's initialisation sets up. -/
def init (tun : Tunnels) (hnp : List MnidHnp) : Daemon where
  heap := fun _ => PmipEntry.blank .noEntry
  live := fun _ => false
  top := 0
  hash := ChainTable.empty pmipCacheBuckets Nat
  count := 0
  lastBid := 0
  tun := tun
  hnp := hnp
  clients := []
  sequence := 0
  log := []
  freedUses := []

def key (d : Daemon) (bce : Nat) : PmipKey := (d.heap bce).key

def entries (d : Daemon) : List Nat := toList d.hash

def touch (d : Daemon) (used : List Nat) : Daemon :=
  { d with freedUses := used.filter (fun bce => !d.live bce) ++ d.freedUses }

def modify (d : Daemon) (bce : Nat) (write : PmipEntry → PmipEntry) : Daemon :=
  { d.touch [bce] with heap := Function.update d.heap bce (write (d.heap bce)) }

def emit (d : Daemon) (effect : Effect) : Daemon := { d with log := effect :: d.log }

def delTask (d : Daemon) (bce : Nat) : Daemon :=
  { d.touch [bce] with tun := { d.tun with tq := d.tun.tq.delTask (.bce bce) } }

/-- `clock_gettime` into `add_time` and the task `timeOut` later. -/
def addTask (d : Daemon) (now timeOut : Timespec) (bce : Nat) (task : Task) : Daemon :=
  let d := d.modify bce fun e => { e with addTime := now }
  { d with tun := { d.tun with tq := d.tun.tq.addTaskAbs (tsadd now timeOut) (.bce bce) task } }

/-! ## pmip_cache.c -/

def walk (d : Daemon) (k : PmipKey) (chain : List Nat) : List Nat :=
  chain.takeWhile (fun bce => d.key bce ≠ k) ++ (chain.find? fun bce => d.key bce = k).toList

def chainOf (d : Daemon) (k : PmipKey) : List Nat := d.hash (calcHash pmipCacheBuckets k)

def pmipCacheAlloc (d : Daemon) (env : Env) (type : BceType) : Daemon × Option Nat :=
  if env.entryAlloc then
    ({ d with
        heap := Function.update d.heap d.top (PmipEntry.blank type)
        live := Function.update d.live d.top true
        top := d.top + 1 }, some d.top)
  else (d, none)

/-- `__pmipcache_insert`: whether the node was linked. -/
def pmipcacheInsert (d : Daemon) (env : Env) (bce : Nat) : Daemon × Bool :=
  let d := d.touch (bce :: d.walk (d.key bce) (d.chainOf (d.key bce)).dropLast)
  let added := tableAdd (calcHash pmipCacheBuckets) d.key d.hash bce env.nodeAlloc
  if added.2 = 0 then ({ d with hash := added.1, count := d.count + 1 }, true) else (d, false)

def pmipCacheStart (d : Daemon) (env : Env) (bce : Nat) : Daemon :=
  d.addTask env.now (d.heap bce).lifetime bce .bceExpired

/-- `last_BID++` and the entry's own number. -/
def nextBid (d : Daemon) (bce : Nat) : Daemon :=
  let bid := d.lastBid + 1
  { d with lastBid := bid }.modify bce fun e => { e with bid := bid }

def inserted (conf : Conf) (d : Daemon) (env : Env) (bce : Nat) : Daemon :=
  let d := d.modify bce fun e => { e with nRetsCounter := conf.maxMessageRetransmissions }
  if (d.heap bce).type = .pmip then d.pmipCacheStart env bce else d

/-- `pmip_cache_add`; its callers ignore whether the entry was inserted. -/
def pmipCacheAdd (conf : Conf) (d : Daemon) (env : Env) (bce : Nat) : Daemon :=
  match (d.nextBid bce).pmipcacheInsert env bce with
  | (d, false) => d
  | (d, true) => d.inserted conf env bce

def pmipCacheGet (d : Daemon) (mnNai : Nai) (magAddr : In6Addr) : Daemon × Option Nat :=
  let k : PmipKey := ⟨mnNai, magAddr⟩
  (d.touch (d.walk k (d.chainOf k)),
    ChainTable.get (calcHash pmipCacheBuckets) d.key d.hash k)

def pmipCacheExists (d : Daemon) (mnNai : Nai) (magAddr : In6Addr) : Daemon × BceType :=
  match d.pmipCacheGet mnNai magAddr with
  | (d, none) => (d, .noEntry)
  | (d, some bce) => (d, (d.heap bce).type)

/-- `pmip_bce_delete`: the node is looked for by the entry's key, the entry is
released whichever node that was. -/
def pmipBceDelete (d : Daemon) (bce : Nat) : Daemon :=
  let d := d.delTask bce
  let k := d.key bce
  let d := d.touch (d.walk k (d.chainOf k))
  { d with
    count := d.count - 1
    hash := erase (calcHash pmipCacheBuckets) d.key d.hash k
    live := Function.update d.live bce false }

/-! ## Address, tunnel and message helpers -/

/-- `get_mn_addr`: the address is left in `mn_addr`. -/
def getMnAddr (d : Daemon) (bce : Nat) : Daemon :=
  d.modify bce fun e => { e with mnAddr := convertId2Addr e.mnPrefix e.mnSuffix }

/-- `bce->tunnel = pmip_tunnel_add(&conf.OurAddress, remote, link)`. -/
def pmipTunnelAdd (conf : Conf) (d : Daemon) (env : Env) (bce : Nat) (remote : In6Addr)
    (link : Int) : Outcome :=
  match d.tun.pmipTunnelAdd conf env.tunnel conf.ourAddress remote link with
  | .error crash => .error (crash, d)
  | .ok (tun, tunnel) =>
      .ok (({ d with tun := tun }.emit (.tunnelAdd remote tunnel)).modify bce fun e =>
        { e with tunnel := tunnel })

def pmipTunnelDel (conf : Conf) (d : Daemon) (env : Env) (bce : Nat) : Outcome :=
  let e := d.heap bce
  match d.tun.pmipTunnelDel conf env.now e.tunnel with
  | .error crash => .error (crash, d)
  | .ok (tun, _) => .ok ({ d with tun := tun }.emit (.tunnelDel e.mnServMagAddr e.tunnel))

/-- The last eight bytes of an identifier, `ip6mnid_t`. -/
def mnidOf (suffix : In6Addr) : Octets 8 := ⟨suffix.bytes.drop 8, by simp [suffix.size]⟩

/-- The `ip6mhbu_lifetime` of a lifetime in seconds. -/
def encodeLifetime (lifetime : Timespec) : UInt16 :=
  UInt16.ofNat ((lifetime.tvSec / 4) % 2 ^ 16).toNat

/-- `bce->timestamp` from `gettimeofday`. -/
def timestampOf (timeOfDay : Option (Nat × Nat)) : Ip6ts :=
  match timeOfDay with
  | none => ⟨0, 0⟩
  | some (sec, usec) =>
      ⟨UInt32.ofNat (sec / 2 ^ 16),
        UInt32.ofNat (sec % 2 ^ 16 * 2 ^ 16 + usec * 65536 / 1000000 % 2 ^ 16)⟩

/-- `mh_send_pbu`.  Nothing happens when `mh_create` fails. -/
def mhSendPbu (d : Daemon) (env : Env) (src dst : In6Addr) (bce : Nat) (lifetime : Timespec) :
    Daemon :=
  if env.mhAlloc then
    let seqno := UInt16.ofNat d.sequence
    let timestamp := timestampOf env.timeOfDay
    let d := { d with sequence := d.sequence + 1 }.modify bce fun e =>
      { e with seqnoOut := seqno, timestamp := timestamp }
    let e := d.heap bce
    let pbu : Pbu := {
      seqno := seqno
      flags := e.pbuFlags
      lifetime := encodeLifetime lifetime
      mnNai := e.mnNai
      mnPrefix := e.mnPrefix
      mnId := mnidOf e.mnSuffix
      timestamp := env.timeOfDay.map fun _ => timestamp }
    (d.emit (.sendPbu src dst pbu 0)).modify bce fun e => { e with mhVec := some pbu }
  else d

def mhSendPba (d : Daemon) (env : Env) (src dst : In6Addr) (bce : Nat) (lifetime : Timespec) :
    Daemon :=
  if env.mhAlloc then
    let e := d.heap bce
    let pba : Pba := {
      status := e.status
      flags := e.pbaFlags
      seqno := e.seqnoIn
      lifetime := encodeLifetime lifetime
      mnNai := e.mnNai
      mnPrefix := e.mnPrefix
      mnId := mnidOf e.mnSuffix
      timestamp := e.timestamp }
    (d.modify bce fun e => { e with seqnoOut := e.seqnoIn }).emit (.sendPba src dst pba 0)
  else d

end Daemon

end OaiPmip
