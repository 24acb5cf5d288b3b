import OaiPmip.HaLifetimes
import OaiPmip.PrefixLists
import OaiPmip.TunnelOps

/-!
# Home registrations: ha.c and bcache.c

A worker for every update that arrives.  One that has to make a binding waits for
duplicate address detection, with its entry in the cache, and other workers go on
meanwhile.  Apart from that a worker is one step, as is an update of a correspondent
node.  The code holds no lock between `bcache_get` and `bcache_add_homereg`, nor from
`bcache_release_entry` to `bcache_delete` and `mpd_start_mpa`: what comes in between
there is not modelled.  The kernel has the routes and the proxy entries, tunnelctl.c
the tunnels.
-/

set_option autoImplicit false

namespace OaiPmip.HomeReg

open OaiPmip.Cn OaiPmip.Ha OaiPmip.HaLifetimes OaiPmip.PrefixLists OaiPmip.TunnelCtl

/-- `RT6_TABLE_MAIN` and `RT6_TABLE_MIP6`. -/
inductive RtTable where
  | main
  | mip6
  deriving DecidableEq

/-- `IP6_RT_PRIO_MIP6_FWD` and `IP6_RT_PRIO_MIP6_OUT`. -/
inductive RtPrio where
  | mip6Fwd
  | mip6Out
  deriving DecidableEq

/-- A route as the kernel keys it; a source is a whole address, a destination its
leading bits. -/
structure Route where
  oif : Int
  table : RtTable
  prio : RtPrio
  src : Option In6Addr
  dst : UInt8 × List Bool
  deriving DecidableEq

def hoaRoute (ifindex : Int) (hoa : In6Addr) : Route :=
  ⟨ifindex, .main, .mip6Fwd, none, prefixKey ⟨128, hoa⟩⟩

def mnpRoute (ifindex : Int) (p : PrefixListEntry) : Route :=
  ⟨ifindex, .mip6, .mip6Fwd, none, prefixKey p⟩

def outRoute (link : Int) (ourAddr peerAddr : In6Addr) : Route :=
  ⟨link, .mip6, .mip6Out, some ourAddr, prefixKey ⟨128, peerAddr⟩⟩

structure Kernel where
  routes : Route → Bool
  proxies : Int × In6Addr → Bool

/-- `route_add`; `takes` is what the kernel answers. -/
def Kernel.routeAdd (takes : Route → Bool) (k : Kernel) (route : Route) : Kernel × Bool :=
  if route.oif = 0 then (k, false)
  else if takes route then ({ k with routes := Function.update k.routes route true }, true)
  else (k, false)

def Kernel.routeDel (k : Kernel) (route : Route) : Kernel :=
  { k with routes := Function.update k.routes route false }

/-- `ipv6_addr_llocal`. -/
def llocalAddr (addr : In6Addr) : In6Addr :=
  ⟨[0xfe, 0x80] ++ List.replicate 6 0 ++ addr.bytes.drop 8, by simp [addr.size]⟩

/-- `proxy_nd_start`; the kernel answers to one `pneigh_add` and to the other. -/
def Kernel.proxyNdStart (k : Kernel) (link : Int) (target : In6Addr) (llocal takes takesLl : Bool) :
    Kernel × Bool :=
  if !takes then (k, false)
  else
    let proxies := Function.update k.proxies (link, target) true
    if !llocal then ({ k with proxies }, true)
    else if takesLl then
      ({ k with proxies := Function.update proxies (link, llocalAddr target) true }, true)
    else ({ k with proxies := Function.update proxies (link, target) false }, false)

def Kernel.proxyNdStop (k : Kernel) (link : Int) (target : In6Addr) (llocal : Bool) : Kernel :=
  let proxies :=
    if llocal then Function.update k.proxies (link, llocalAddr target) false else k.proxies
  { k with proxies := Function.update proxies (link, target) false }

/-- The bits of the flags of an update that are kept. -/
structure BuFlags where
  home : Bool
  mobRtr : Bool
  llocal : Bool
  keym : Bool

inductive NemoType where
  | unset
  | explicit
  | implicit
  deriving DecidableEq

/-- `struct bcentry`; `cleanup` is whether it is `home_cleanup`. -/
structure Bcentry where
  ourAddr : In6Addr
  peerAddr : In6Addr
  coa : In6Addr
  oldCoa : In6Addr
  seqno : UInt16
  flags : BuFlags
  type : EntryType
  link : Int
  tunnel : Int
  lifetime : Timespec
  nonceCoa : UInt16
  nonceHoa : UInt16
  unreach : Nat
  nemoType : NemoType
  mobNetPrefixes : List PrefixListEntry
  cleanup : Bool

def Bcentry.key (bce : Bcentry) : BcKey := ⟨bce.ourAddr, bce.peerAddr⟩

/-! ## What happens to the routes with a tunnel -/

structure HaRecvBuArgs where
  bu : HomeBu
  bindCoa : In6Addr
  llocal : Bool
  keym : Bool
  mobNetPrefixes : Option (List PrefixListEntry)
  flags : HaBuFlags
  skipDad : Bool

def HaRecvBuArgs.key (args : HaRecvBuArgs) : BcKey := ⟨args.bu.src, args.bu.dst⟩

def HaRecvBuArgs.buFlags (args : HaRecvBuArgs) : BuFlags :=
  ⟨args.bu.isHome, args.bu.isMobRtr, args.llocal, args.keym⟩

structure HaRegConf extends HaConf where
  useMnHaIpsec : Bool
  sendUnsolMobPfxAdvs : Bool
  getMnps : In6Addr → List PrefixListEntry
  useKeymgm : In6Addr → In6Addr → Bool

/-- What a worker is answered by the clock, the allocator, the kernel and ipsec.c. -/
structure Answers where
  now : Timespec
  alloc : Bool
  mnpAlloc : Bool
  takes : Route → Bool
  proxy : Bool
  proxyLl : Bool
  tunnel : ModEnv
  tnlPolAdd : Bool
  trnsUpdate : Bool
  tnlUpdate : Bool

/-- `IP6_MH_BAS_INSUFFICIENT` and `IP6_MH_BAS_DAD_FAILED`. -/
def basInsufficient : Int := 130
def basDadFailed : Int := 134

structure HomeTnlOpsParm where
  bce : Bcentry
  baStatus : Int
  mobNetPrefixes : List PrefixListEntry

def prefixListFind (pl : List PrefixListEntry) (p : PrefixListEntry) : Bool :=
  (prefixListGet pl p.plePrefix p.plePlen.toNat).isSome

/-- `nemo_ha_del_mnp_routes`, whose loop leaves the prefixes of the new list. -/
def nemoHaDelMnpRoutes (newMnps : List PrefixListEntry) (ifindex : Int) (all : Bool) :
    Kernel → List PrefixListEntry → Kernel
  | k, [] => k
  | k, p :: rest =>
      if !all && prefixListFind newMnps p then nemoHaDelMnpRoutes newMnps ifindex all k rest
      else nemoHaDelMnpRoutes newMnps ifindex all (k.routeDel (mnpRoute ifindex p)) rest

/-- `nemo_ha_add_mnp_routes`, which stops at a route that is refused. -/
def nemoHaAddMnpRoutes (takes : Route → Bool) (oldMnps : List PrefixListEntry) (ifindex : Int)
    (all : Bool) : Kernel → List PrefixListEntry → Kernel × Bool
  | k, [] => (k, true)
  | k, p :: rest =>
      if !all && prefixListFind oldMnps p then
        nemoHaAddMnpRoutes takes oldMnps ifindex all k rest
      else
        match k.routeAdd takes (mnpRoute ifindex p) with
        | (k, false) => (k, false)
        | (k, true) => nemoHaAddMnpRoutes takes oldMnps ifindex all k rest

def mnpStatus (nemoType : NemoType) : Int :=
  if nemoType = .explicit then basInvalPrfx else basFwdingFailed

abbrev TnlData := Kernel × HomeTnlOpsParm

def homeTnlDel (oldIf newIf : Int) (data : TnlData) : TnlData :=
  let (k, p) := data
  let k := k.routeDel (hoaRoute oldIf p.bce.peerAddr)
  let k := nemoHaDelMnpRoutes p.mobNetPrefixes oldIf true k p.bce.mobNetPrefixes
  (k, { p with bce := { p.bce with tunnel := newIf } })

section Ops
variable (conf : HaRegConf) (a : Answers)

/-- The end of `home_tnl_add` on an error. -/
def homeTnlUndo (oldIf newIf : Int) (k : Kernel) (p : HomeTnlOpsParm) (status : Int) :
    TnlData × Bool :=
  (homeTnlDel newIf oldIf (k, { p with baStatus := status }), false)

def homeTnlAdd (oldIf newIf : Int) (data : TnlData) : TnlData × Bool :=
  let (k, p) := data
  let p := { p with bce := { p.bce with tunnel := newIf } }
  match nemoHaAddMnpRoutes a.takes p.bce.mobNetPrefixes newIf true k p.mobNetPrefixes with
  | (k, false) => homeTnlUndo oldIf newIf k p (mnpStatus p.bce.nemoType)
  | (k, true) =>
      match k.routeAdd a.takes (hoaRoute newIf p.bce.peerAddr) with
      | (k, false) => homeTnlUndo oldIf newIf k p basInsufficient
      | (k, true) =>
          if conf.useMnHaIpsec && !(a.tnlPolAdd && a.trnsUpdate && a.tnlUpdate) then
            homeTnlUndo oldIf newIf k p basInsufficient
          else ((k, p), true)

def stored : List PrefixListEntry → List StoredPrefix := storeAll fun _ => false

/-- The routes of a tunnel that stays, in `home_tnl_chg`. -/
def homeTnlMnps (ifindex : Int) (k : Kernel) (p : HomeTnlOpsParm) : Kernel × Bool :=
  if prefixListCmp (stored p.bce.mobNetPrefixes) (stored p.mobNetPrefixes) = 0 then
    let k := nemoHaDelMnpRoutes p.mobNetPrefixes ifindex false k p.bce.mobNetPrefixes
    nemoHaAddMnpRoutes a.takes p.bce.mobNetPrefixes ifindex false k p.mobNetPrefixes
  else (k, true)

def homeTnlChg (oldIf newIf : Int) (data : TnlData) : TnlData × Bool :=
  if oldIf = newIf then
    let (k, p) := data
    match homeTnlMnps a newIf k p with
    | (k, false) => ((k, { p with baStatus := mnpStatus p.bce.nemoType }), false)
    | (k, true) =>
        if conf.useMnHaIpsec && p.bce.oldCoa ≠ p.bce.coa && !(a.trnsUpdate && a.tnlUpdate) then
          ((k, p), false)
        else ((k, p), true)
  else homeTnlAdd conf a oldIf newIf (homeTnlDel oldIf newIf data)

/-- The requests of `home_tnl_ops`, with the assertions on the interfaces. -/
def homeTnlOpsAdd : ExtTunnelOps TnlData := fun oldIf newIf data =>
  if newIf = 0 then .error .assertFailed else .ok (homeTnlAdd conf a oldIf newIf data)

def homeTnlOpsChg : ExtTunnelOps TnlData := fun oldIf newIf data =>
  if oldIf = 0 ∨ newIf = 0 then .error .assertFailed
  else .ok (homeTnlChg conf a oldIf newIf data)

def homeTnlOpsDel : ExtTunnelOps TnlData := fun oldIf newIf data =>
  if oldIf = 0 then .error .assertFailed else .ok (homeTnlDel oldIf newIf data, true)

end Ops

/-! ## The home agent -/

/-- What a worker gives `mh_send_ba` and `mh_send_ba_err`. -/
inductive Ack where
  | ba (key : BcKey) (bindCoa : In6Addr) (status : Int) (keym mobRtr : Bool) (seqno : UInt16)
      (lft : Timespec)
  | baErr (key : BcKey) (status : Int) (seqno : UInt16)

/-- What a worker keeps while it waits for `ndisc_do_dad`. -/
structure DadWait where
  args : HaRecvBuArgs
  status : Int
  lft : Timespec
  seqno : UInt16

def DadWait.key (w : DadWait) : BcKey := w.args.key

def Bcentry.renewed (bce : Bcentry) (w : DadWait) (nemoType : NemoType) : Bcentry :=
  { bce with seqno := w.seqno, flags := w.args.buFlags, lifetime := w.lft, nemoType }

/-- An update without the H flag that `cn_bu_check` accepts. -/
structure CnBu where
  key : BcKey
  request : Request
  flags : BuFlags
  notHome : flags.home = false

def CnBu.nonInd (bu : CnBu) : UInt16 × UInt16 := bu.request.nonInd.getD (0, 0)

/-- What `cn_recv_bu` is answered: by `cn_binding_pol_get`, by the allocator, and whether
the home nonce of the entry is still valid. -/
structure CnEnv where
  binds : Bool
  alloc : Bool
  minlft : Bool

/-- What `cn_recv_bu` writes into an entry, whatever it was. -/
def Bcentry.bound (bce : Bcentry) (bu : CnBu) : Bcentry :=
  { bce with
    coa := bu.request.bindCoa
    seqno := bu.request.seqno
    flags := bu.flags
    unreach := 0
    type := .cached
    nonceCoa := bu.nonInd.2
    nonceHoa := bu.nonInd.1
    lifetime :=
      if tsbefore bu.request.lifetime maxRrBindingLifetime then maxRrBindingLifetime
      else bu.request.lifetime }

/-- `mpa` has the bindings for which advertisements are scheduled, `others` the
references to tunnels that the other users of tunnelctl.c hold. -/
structure HomeAgent where
  bc : List Bcentry
  waiting : List DadWait
  kernel : Kernel
  ctl : TunnelCtl
  mpa : BcKey → Bool
  others : List Int
  acks : List Ack

namespace HomeAgent

def init : HomeAgent where
  bc := []
  waiting := []
  kernel := ⟨fun _ => false, fun _ => false⟩
  ctl := TunnelCtl.init
  mpa := fun _ => false
  others := []
  acks := []

def bcacheGet (s : HomeAgent) (key : BcKey) : Option Bcentry := s.bc.find? fun b => b.key = key

def without (s : HomeAgent) (key : BcKey) : List Bcentry := s.bc.filter fun b => b.key ≠ key

def put (s : HomeAgent) (bce : Bcentry) : HomeAgent :=
  { s with bc := bce :: s.without bce.key }

def mpdStartMpa (conf : HaRegConf) (s : HomeAgent) (key : BcKey) : HomeAgent :=
  if conf.sendUnsolMobPfxAdvs then { s with mpa := Function.update s.mpa key true } else s

def mpdCancelMpa (s : HomeAgent) (key : BcKey) : HomeAgent :=
  { s with mpa := Function.update s.mpa key false }

def homeCleanup (s : HomeAgent) (bce : Bcentry) : Except ModFault HomeAgent := do
  let s := s.mpdCancelMpa bce.key
  let s :=
    if bce.link > 0 then
      let k := s.kernel.routeDel (outRoute bce.link bce.ourAddr bce.peerAddr)
      { s with kernel := k.proxyNdStop bce.link bce.peerAddr bce.flags.llocal }
    else s
  if bce.tunnel > 0 then
    let (ctl, (kernel, _), _) ←
      tunnelDelOps homeTnlOpsDel s.ctl bce.tunnel (s.kernel, ⟨bce, basAccepted, []⟩)
    .ok { s with ctl, kernel }
  else .ok s

/-- `bce_delete`; `minlft` is whether the home nonce of a cached entry is still
valid. -/
def bceDelete (s : HomeAgent) (bce : Bcentry) (minlft : Bool) : Except ModFault HomeAgent := do
  let s ← if bce.cleanup then s.homeCleanup bce else .ok s
  if (bce.type = .cached ∨ bce.type = .cacheDying) ∧ minlft then
    .ok (s.put { bce with type := .nonceBlock })
  else .ok { s with bc := s.without bce.key }

/-- `bcache_delete` of a home agent's worker, which deletes no cached entry. -/
def bcacheDelete (s : HomeAgent) (key : BcKey) : Except ModFault HomeAgent :=
  match s.bcacheGet key with
  | none => .ok s
  | some bce => s.bceDelete bce false

def sendBaErr (s : HomeAgent) (args : HaRecvBuArgs) (status : Int) (seqno : UInt16) :
    HomeAgent :=
  if args.flags.skipBa then s else { s with acks := .baErr args.key status seqno :: s.acks }

/-- The exit `send_nack` of the worker with an entry. -/
def refuse (s : HomeAgent) (args : HaRecvBuArgs) (status : Int) (seqno : UInt16) :
    Except ModFault HomeAgent := do
  let s ← s.bcacheDelete args.key
  .ok (s.sendBaErr args status seqno)

def refuseBce (s : HomeAgent) (bce : Bcentry) (w : DadWait) (status : Int) :
    Except ModFault HomeAgent :=
  (s.put bce).refuse w.args status w.seqno

section Worker
variable (conf : HaRegConf)

def bindMnps (args : HaRecvBuArgs) (lft : Timespec) (a : Answers) (nemoType : NemoType) :
    Except Int (List PrefixListEntry × NemoType) :=
  if args.bu.isMobRtr && tsisset lft then
    match args.mobNetPrefixes with
    | some mnps => if a.mnpAlloc then .ok (mnps, .explicit) else .error basInvalPrfx
    | none =>
        if a.mnpAlloc ∧ conf.getMnps args.bu.dst ≠ [] then
          .ok (conf.getMnps args.bu.dst, .implicit)
        else .error basFwdingFailed
  else .ok ([], nemoType)

def tnlStatus (p : HomeTnlOpsParm) : Int :=
  if p.baStatus ≥ basUnspecified then p.baStatus else basInsufficient

def finish (s : HomeAgent) (bce : Bcentry) (w : DadWait) (new : Bool) :
    Except ModFault HomeAgent := do
  let keym := conf.useKeymgm bce.peerAddr bce.ourAddr && w.args.keym
  let s := s.put { bce with flags := { bce.flags with keym } }
  let s ← if tsisset w.lft then .ok s else s.bcacheDelete bce.key
  let mobRtr := w.status < basUnspecified && w.args.bu.isMobRtr
  let s := if w.args.flags.skipBa then s else
    { s with acks := .ba w.key w.args.bindCoa w.status keym mobRtr w.seqno w.lft :: s.acks }
  .ok (if new && tsisset w.lft then s.mpdStartMpa conf bce.key else s)

def register (s : HomeAgent) (bce : Bcentry) (w : DadWait) (a : Answers) :
    Except ModFault HomeAgent :=
  match bindMnps conf w.args w.lft a bce.nemoType with
  | .error status => s.refuseBce bce w status
  | .ok (mnps, nemoType) => do
      let (ctl, (kernel, p), ret) ← tunnelAddOps (homeTnlOpsAdd conf a) s.ctl a.tunnel.created
        bce.ourAddr w.args.bindCoa 0 (s.kernel, ⟨bce.renewed w nemoType, w.status, mnps⟩)
      let s := { s with ctl, kernel }
      if ret < 0 then s.refuseBce p.bce w (tnlStatus p)
      else
        let bce := { p.bce with
          mobNetPrefixes := p.mobNetPrefixes ++ p.bce.mobNetPrefixes, cleanup := true }
        match s.kernel.routeAdd a.takes (outRoute bce.link bce.ourAddr bce.peerAddr) with
        | (kernel, false) => refuseBce { s with kernel } bce w basInsufficient
        | (kernel, true) =>
            match kernel.proxyNdStart bce.link bce.peerAddr w.args.llocal a.proxy a.proxyLl with
            | (kernel, false) => refuseBce { s with kernel } bce w basInsufficient
            | (kernel, true) => finish conf { s with kernel } { bce with type := .homereg } w true

def renew (s : HomeAgent) (bce : Bcentry) (w : DadWait) (a : Answers) :
    Except ModFault HomeAgent :=
  match bindMnps conf w.args w.lft a bce.nemoType with
  | .error status => s.refuseBce bce w status
  | .ok (mnps, nemoType) => do
      let bce := { bce.renewed w nemoType with oldCoa := bce.coa, coa := w.args.bindCoa }
      let (ctl, (kernel, p), ret) ← tunnelModOps (homeTnlOpsChg conf a) s.ctl a.tunnel bce.tunnel
        bce.ourAddr w.args.bindCoa 0 (s.kernel, ⟨bce, w.status, mnps⟩)
      let s := { s with ctl, kernel }
      if ret < 0 then s.refuseBce p.bce w (tnlStatus p)
      else finish conf s { p.bce with mobNetPrefixes := p.mobNetPrefixes } w false

def cachedBce (args : HaRecvBuArgs) (bce : Bcentry) : CachedBce :=
  ⟨bce.type, bce.flags.home != args.bu.isHome || bce.flags.mobRtr != args.bu.isMobRtr, bce.seqno⟩

def refusedSeqno (args : HaRecvBuArgs) (found : Option Bcentry) (status : Int) : UInt16 :=
  match found with
  | some bce => if status = basSeqnoBad then bce.seqno else args.bu.seqno
  | none => args.bu.seqno

def usedSeqno (args : HaRecvBuArgs) (found : Option Bcentry) : UInt16 :=
  match found with
  | some bce =>
      if bce.type ≠ .nonceBlock ∧ mip6SeqGt args.bu.seqno bce.seqno = false then bce.seqno + 1
      else args.bu.seqno
  | none => args.bu.seqno

def newBce (args : HaRecvBuArgs) (seqno : UInt16) (link : Int) : Bcentry where
  ourAddr := args.bu.src
  peerAddr := args.bu.dst
  coa := args.bindCoa
  oldCoa := in6addrAny
  seqno := seqno
  flags := args.buFlags
  type := .dad
  link := link
  tunnel := 0
  lifetime := ⟨0, 0⟩
  nonceCoa := 0
  nonceHoa := 0
  unreach := 0
  nemoType := .unset
  mobNetPrefixes := []
  cleanup := false

def startDad (s : HomeAgent) (w : DadWait) (link : Int) (a : Answers) :
    Except ModFault HomeAgent :=
  if !a.alloc then .ok (s.sendBaErr w.args basInsufficient w.seqno)
  else
    let bce := newBce w.args w.seqno link
    if w.args.skipDad then register conf (s.put bce) bce w a
    else .ok { s.put bce with waiting := w :: s.waiting }

/-- `ha_recv_bu_worker` up to its end or to duplicate address detection, in one step. -/
def haRecvBuWorker (s : HomeAgent) (args : HaRecvBuArgs) (a : Answers) :
    Except ModFault HomeAgent :=
  let found := s.bcacheGet args.key
  match cachedStatus args.bu args.flags (found.map (cachedBce args)) with
  | some status =>
      -- a binding that is being made is left to its worker
      if status = -16 then .ok s
      else .ok (s.sendBaErr args status (refusedSeqno args found status))
  | none => do
      let seqno := usedSeqno args found
      let link := (mpdPrefixCheck conf.interfaces args.bu.src args.bu.dst args.bu.lft 0 false
        a.now).ifindex
      match found.filter fun bce => bce.type ≠ .nonceBlock, haGrant conf.toHaConf args.bu a.now with
      | some _, .error status => s.refuse args status seqno
      | some bce, .ok (status, lft) => renew conf s bce ⟨args, status, lft, seqno⟩ a
      | none, granted =>
          let s ← s.bcacheDelete args.key
          match granted with
          | .error status => .ok (s.sendBaErr args status seqno)
          | .ok (status, lft) => startDad conf s ⟨args, status, lft, seqno⟩ link a

/-- The worker goes on after `ndisc_do_dad`. -/
def dadDone (s : HomeAgent) (key : BcKey) (success : Bool) (a : Answers) :
    Except ModFault HomeAgent :=
  match s.waiting.find? fun w => w.key = key with
  | none => .ok s
  | some w => do
      let s := { s with waiting := s.waiting.eraseP fun w => w.key = key }
      if success then
        match s.bcacheGet key with
        | none => .ok (s.sendBaErr w.args basUnspecified w.seqno)
        | some bce => register conf s bce w a
      else
        let s ← s.bcacheDelete key
        .ok (s.sendBaErr w.args basDadFailed w.seqno)

/-- `_expire`, which is queued for no binding that is being made. -/
def expire (s : HomeAgent) (key : BcKey) (minlft : Bool) : Except ModFault HomeAgent :=
  match s.bcacheGet key with
  | none => .ok s
  | some bce =>
      match bce.type with
      | .dad => .ok s
      | .cached => .ok (s.put { bce with type := .cacheDying })
      | _ => s.bceDelete bce minlft

/-- `bcache_alloc` with the addresses written. -/
def bcacheAlloc (key : BcKey) : Bcentry where
  ourAddr := key.ourAddr
  peerAddr := key.peerAddr
  coa := in6addrAny
  oldCoa := in6addrAny
  seqno := 0
  flags := ⟨false, false, false, false⟩
  type := .nonceBlock
  link := 0
  tunnel := 0
  lifetime := ⟨0, 0⟩
  nonceCoa := 0
  nonceHoa := 0
  unreach := 0
  nemoType := .unset
  mobNetPrefixes := []
  cleanup := false

/-- The end of `cn_recv_bu`, from `cn_binding_pol_get` on, with the entry it holds. -/
def cnBind (s : HomeAgent) (bu : CnBu) (found : Option Bcentry) (env : CnEnv) :
    Except ModFault HomeAgent :=
  if env.binds && tsisset bu.request.lifetime then
    match found with
    | some bce => .ok (s.put (bce.bound bu))
    | none => .ok (if env.alloc then s.put ((bcacheAlloc bu.key).bound bu) else s)
  else
    match found with
    | some bce => s.bceDelete bce env.minlft
    | none => .ok s

/-- `cn_recv_bu` after `cn_bu_check`.  It does not look at the type of an entry that is
no nonce block: a home registration and a binding that is being made become entries of
a correspondent node, or are deleted. -/
def cnRecvBu (s : HomeAgent) (bu : CnBu) (env : CnEnv) : Except ModFault HomeAgent :=
  match s.bcacheGet bu.key with
  | none => s.cnBind bu none env
  | some bce =>
      let old := !mip6SeqGt bu.request.seqno bce.seqno
      if old && bce.type ≠ .nonceBlock then .ok s
      else if old && bce.nonceHoa = bu.nonInd.1 then .ok s
      else if bce.type = .nonceBlock then
        if tsisset bu.request.lifetime then do
          let s ← s.bcacheDelete bu.key
          s.cnBind bu none env
        else .ok s
      else s.cnBind bu (some bce) env

def icmpErrorPersistentThreshold : Nat := 3

def cnRecvDstUnreach (s : HomeAgent) (key : BcKey) (minlft : Bool) : Except ModFault HomeAgent :=
  match s.bcacheGet key with
  | none => .ok s
  | some bce =>
      let bce := { bce with unreach := bce.unreach + 1 }
      if bce.unreach > icmpErrorPersistentThreshold ∧ bce.type ≠ .homereg then
        (s.put bce).bceDelete bce minlft
      else .ok (s.put bce)

def otherAdd (s : HomeAgent) (env : TunnelEnv) (local_ remote : In6Addr) (link : Int) :
    HomeAgent :=
  match s.ctl.tunnelAdd env local_ remote link with
  | (ctl, ifindex) =>
      if ifindex < 0 then { s with ctl } else { s with ctl, others := ifindex :: s.others }

def otherDel (s : HomeAgent) (ifindex : Int) : HomeAgent :=
  if s.others.contains ifindex then
    { s with ctl := (s.ctl.tunnelDel ifindex).1, others := s.others.erase ifindex }
  else s

end Worker

end HomeAgent

inductive Event where
  | haRecvBu (args : HaRecvBuArgs) (a : Answers)
  | dadDone (key : BcKey) (success : Bool) (a : Answers)
  | expire (key : BcKey) (minlft : Bool)
  | cnRecvBu (bu : CnBu) (env : CnEnv)
  | cnRecvDstUnreach (key : BcKey) (minlft : Bool)
  | otherAdd (env : TunnelEnv) (local_ remote : In6Addr) (link : Int)
  | otherDel (ifindex : Int)

def HomeAgent.step (conf : HaRegConf) (s : HomeAgent) : Event → Except ModFault HomeAgent
  | .haRecvBu args a => s.haRecvBuWorker conf args a
  | .dadDone key success a => s.dadDone conf key success a
  | .expire key minlft => s.expire key minlft
  | .cnRecvBu bu env => s.cnRecvBu bu env
  | .cnRecvDstUnreach key minlft => s.cnRecvDstUnreach key minlft
  | .otherAdd env local_ remote link => .ok (s.otherAdd env local_ remote link)
  | .otherDel ifindex => .ok (s.otherDel ifindex)

end OaiPmip.HomeReg
