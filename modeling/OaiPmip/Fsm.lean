import OaiPmip.LmaProc
import OaiPmip.MagProc
import OaiPmip.Msgs

/-!
# State machines and handlers, pmip_fsm.c and pmip_handler.c

Each handler runs to its end before the next one starts: `pmip_cache_get` and
the timer handlers hold `pmip_lock` until they release the entry.  The locks
themselves are left out.
-/

set_option autoImplicit false

namespace OaiPmip.Daemon

open OaiPmip.Msgs

/-! ## The mobile access gateway -/

/-- `is_pba_is_response_to_last_pbu_sent`. -/
def isPbaResponse (info : MsgInfo) (e : PmipEntry) : Bool :=
  info.seqno = e.seqnoOut ∧ info.timestamp = e.timestamp ∧ info.mnPrefix = e.mnPrefix ∧
    info.mnIid = e.mnSuffix

def shortenLifetime (sec : Int) : Int :=
  if sec > 10 then sec - 8 else if sec > 5 then sec - 3 else if sec > 1 then sec - 1 else sec

/-- A new mobile node.  Its entry is allocated before the map is asked, and
kept allocated when the map has no answer. -/
def magRegister (conf : Conf) (d : Daemon) (env : Env) (info : MsgInfo) : Outcome :=
  let hwAddress := eui64ToEui48 info.mnIid
  let (d, bce) := d.pmipCacheAlloc env .temp
  let (map, answer) := HnpCache.mnidHnpMap d.hnp env.radius hwAddress info.mnNai
  let d := { d with hnp := map }
  match answer, bce with
  | none, _ => .ok d
  | some _, none => .error (.nullEntry, d)
  | some (pfx, nai), some bce =>
      let d := d.modify bce fun e =>
        { e with mnNai := nai, mnPrefix := pfx, mnSuffix := info.mnIid, mnHwAddress := hwAddress }
      let d := d.magPmipMd conf env { info with mnPrefix := pfx } bce
      .ok (d.pmipCacheAdd conf env bce)

/-- `case BCE_NO_ENTRY`. -/
def magNoEntry (conf : Conf) (d : Daemon) (env : Env) (info : MsgInfo) : Outcome :=
  if info.iif = conf.ingressIif then
    match info.msgEvent with
    | .hasRS | .hasWLCCP | .hasODTONELinkEvent => d.magRegister conf env info
    | _ => .ok d
  else .ok d

/-- `pmip_cache_get` for an entry that is then used without a null check. -/
def getEntry (d : Daemon) (mnNai : Nai) (magAddr : In6Addr) :
    Except (Crash × Daemon) (Daemon × Nat) :=
  match d.pmipCacheGet mnNai magAddr with
  | (d, none) => .error (.nullEntry, d)
  | (d, some bce) => .ok (d, bce)

/-- `case BCE_TEMP`. -/
def magTemp (conf : Conf) (d : Daemon) (env : Env) (info : MsgInfo) : Outcome :=
  match info.msgEvent with
  | .hasPBA => do
      let (d, bce) ← d.getEntry info.mnNai conf.ourAddress
      if isPbaResponse info (d.heap bce) then
        let d := (d.delTask bce).modify bce fun e =>
          { e with
            pbaFlags := info.pbaFlags
            lifetime := { e.lifetime with tvSec := shortenLifetime info.lifetime.tvSec } }
        d.magEndRegistration conf env bce info.iif
      else return d
  | _ => .ok d

/-- `case BCE_PMIP`.  A router solicitation is looked up by the hardware
address in the place of the gateway's own. -/
def magPmip (conf : Conf) (d : Daemon) (env : Env) (info : MsgInfo) : Outcome :=
  match info.msgEvent with
  | .hasRS => do
      let (d, bce) ← d.getEntry info.mnNai (eui64ToEui48 info.mnIid)
      return d.magKickoffRa bce
  | .hasPBA => do
      let (d, bce) ← d.getEntry info.mnNai conf.ourAddress
      if isPbaResponse info (d.heap bce) then
        let d := (d.delTask bce).modify bce fun e =>
          { e with
            pbaFlags := info.pbaFlags
            lifetime := ⟨shortenLifetime info.lifetime.tvSec, 0⟩ }
        return d.magEndRegistrationNoNewTunnel conf env bce
      else return d
  | .hasWLCCP | .hasODTONELinkEvent => do
      let (d, bce) ← d.getEntry info.mnNai conf.ourAddress
      return (d.magKickoffRa bce).magForceUpdateRegistration conf env bce
  | .hasDEREG => do
      let (d, bce) ← d.getEntry info.mnNai conf.ourAddress
      let d ← d.magDereg conf env bce true
      return d.pmipBceDelete bce
  | .hasNA => do
      let (d, bce) ← d.getEntry info.mnNai conf.ourAddress
      let d := d.modify bce fun e => { e with nRetsCounter := conf.maxMessageRetransmissions }
      return (d.delTask bce).magForceUpdateRegistration conf env bce
  | _ => .ok d

def magFsm (conf : Conf) (d : Daemon) (env : Env) (info : MsgInfo) : Outcome :=
  if info.msgEvent = .hasPBA ∧ info.dst ≠ conf.magAddressEgress then .ok d
  else
    match d.pmipCacheExists info.mnNai conf.ourAddress with
    | (d, .noEntry) => d.magNoEntry conf env info
    | (d, .temp) => d.magTemp conf env info
    | (d, .pmip) => d.magPmip conf env info

/-- `pmip_mag_recv_pba`; `stack` is what the uninitialised `info` holds. -/
def pmipMagRecvPba (conf : Conf) (dupBeyond : Nat → Bool) (d : Daemon) (env : Env)
    (stack : MsgInfo) (m : Received) : Outcome :=
  d.magFsm conf env (mhPbaParse dupBeyond stack m)

/-! ## The local mobility anchor, and timers -/

/-- `case BCE_NO_ENTRY`. -/
def lmaNoEntry (conf : Conf) (d : Daemon) (env : Env) (info : MsgInfo) : Outcome :=
  if info.msgEvent = .hasPBU ∧ info.lifetime.tvSec > 0 then
    match d.pmipCacheAlloc env .pmip with
    | (d, none) => .ok d
    | (d, some bce) => do
        let map := HnpCache.pmipInsertIntoHnpCache d.hnp (eui64ToEui48 info.mnIid) info.mnPrefix
          info.mnNai
        let d ← { d with hnp := map }.lmaUpdateBindingEntry conf env bce info
        let d ← d.lmaReg conf env bce
        return d.pmipCacheAdd conf env bce
  else .ok d

def lmaFirstMag (conf : Conf) (d : Daemon) (env : Env) (info : MsgInfo) (bce : Nat) : Outcome :=
  if (d.heap bce).mnServMagAddr = in6addrAny then do
    let d ← d.lmaUpdateBindingEntry conf env bce info
    d.lmaReg conf env bce
  else .ok d

def lmaHandover (conf : Conf) (d : Daemon) (env : Env) (info : MsgInfo) (bce : Nat) : Outcome := do
  let d ← d.lmaDereg conf env bce none
  let d := d.modify bce fun e => { e with type := .pmip }
  let d ← d.lmaUpdateBindingEntry conf env bce info
  d.lmaReg conf env bce

def lmaRefresh (conf : Conf) (d : Daemon) (env : Env) (info : MsgInfo) (bce : Nat) : Outcome := do
  let d ← d.lmaFirstMag conf env info bce
  if info.src = (d.heap bce).mnServMagAddr then
    let d ← d.lmaUpdateBindingEntry conf env bce info
    return d.lmaRegNoNewTunnel conf env bce
  else d.lmaHandover conf env info bce

def lmaDeregister (conf : Conf) (d : Daemon) (env : Env) (info : MsgInfo) (bce : Nat) :
    Outcome := do
  if info.src = (d.heap bce).mnServMagAddr then
    let d ← d.lmaDereg conf env bce (some info.seqno)
    return d.pmipBceDelete bce
  else return d

/-- `case BCE_PMIP`.  `get_mn_addr(bce)` is the last statement of every way
through it: after a deregistration the entry is released, and for any other
event `bce` is still null. -/
def lmaPmip (conf : Conf) (d : Daemon) (env : Env) (info : MsgInfo) : Outcome :=
  if info.msgEvent = .hasPBU ∧ info.lifetime.tvSec > 0 then do
    let (d, bce) ← d.getEntry info.mnNai info.mnServMagAddr
    let d ← d.lmaRefresh conf env info bce
    return d.getMnAddr bce
  else if info.msgEvent = .hasPBU ∧ info.lifetime.tvSec = 0 ∧ info.lifetime.tvNsec = 0 then do
    let (d, bce) ← d.getEntry info.mnNai info.mnServMagAddr
    let d ← d.lmaDeregister conf env info bce
    return d.getMnAddr bce
  else .error (.nullEntry, d)

def lmaFsm (conf : Conf) (d : Daemon) (env : Env) (info : MsgInfo) : Outcome :=
  match d.pmipCacheExists info.mnNai info.mnServMagAddr with
  | (d, .noEntry) => d.lmaNoEntry conf env info
  | (d, .temp) => .ok d
  | (d, .pmip) => d.lmaPmip conf env info

def pmipLmaRecvPbu (conf : Conf) (dupBeyond : Nat → Bool) (d : Daemon) (env : Env)
    (m : Received) : Outcome :=
  d.lmaFsm conf env (mhPbuParse conf dupBeyond MsgInfo.zero m)

def pmipTimerRetransPbuHandler (conf : Conf) (d : Daemon) (env : Env) (bce : Nat) : Outcome :=
  let e := d.heap bce
  if e.nRetsCounter = 0 then .ok (d.pmipBceDelete bce)
  else
    let seqno := UInt16.ofNat d.sequence
    let d := { d with sequence := d.sequence + 1 }.modify bce fun e =>
      { e with nRetsCounter := e.nRetsCounter - 1, seqnoOut := seqno }
    match e.mhVec with
    | none => .error (.nullIov, d)
    | some pbu =>
        let pbu := { pbu with seqno := seqno }
        let d := d.modify bce fun e => { e with mhVec := some pbu }
        let d := d.emit (.sendPbu conf.ourAddress conf.lmaAddress pbu e.link)
        .ok (d.startRetransmission conf env bce)

/-- The anchor lets a binding expire at once; the gateway first asks for the
neighbour `n_rets_counter` times. -/
def pmipTimerBceExpiredHandler (conf : Conf) (d : Daemon) (env : Env) (bce : Nat) : Outcome :=
  match conf.mip6Entity with
  | .ha => do
      let d ← d.lmaDereg conf env bce none
      return d.pmipBceDelete bce
  | .mag =>
      if (d.heap bce).nRetsCounter = 0 then do
        let d ← d.magDereg conf env bce true
        return d.pmipBceDelete bce
      else
        let d := d.getMnAddr bce
        let d := d.emit (.sendNs (d.heap bce).link (d.heap bce).mnAddr)
        let d := d.addTask env.now conf.retransmissionTimeOut bce .bceExpired
        .ok (d.modify bce fun e => { e with nRetsCounter := e.nRetsCounter - 1 })

/-- One turn of the task queue's runner.  An entry's element only ever carries
one of the two tasks named here. -/
def fire (conf : Conf) (d : Daemon) (env : Env) : Outcome :=
  match d.tun.tq.runner env.now with
  | none => .ok d
  | some (element, tq) =>
      let d := { d with tun := { d.tun with tq := tq } }
      match element with
      | .tunnel mag => .ok { d with tun := d.tun.pmipTimerTunnelExpiredHandler mag }
      | .bce bce =>
          match tq.task (.bce bce) with
          | some .retransPbu => d.pmipTimerRetransPbuHandler conf env bce
          | some .bceExpired => d.pmipTimerBceExpiredHandler conf env bce
          | _ => .ok d

end OaiPmip.Daemon
