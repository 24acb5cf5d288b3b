import OaiPmip.HnpCache

/-!
# Local mobility anchor procedures, pmip_lma_proc.c

With the list of client routes of fmpmip_client_route.c, which names the MAGs
every client is registered at.
-/

set_option autoImplicit false

namespace OaiPmip

namespace ClientRoutes

/-- `add_mag_to_client`; a null `new_mag` is written to. -/
def addMagToClient (mags : List In6Addr) (mag : In6Addr) (alloc : Bool) :
    Except Crash (List In6Addr) :=
  if mag ∈ mags then .ok mags
  else if alloc then .ok (mag :: mags)
  else .error .nullRoute

def setMags (clientNai : Nai) (mags : List In6Addr) : List ClientRoute → List ClientRoute
  | [] => []
  | client :: rest =>
      if client.clientNai = clientNai then { client with mags := mags } :: rest
      else client :: setMags clientNai mags rest

def find (clients : List ClientRoute) (clientNai : Nai) : Option ClientRoute :=
  clients.find? fun client => client.clientNai = clientNai

def addClientRoute (clients : List ClientRoute) (clientNai : Nai) (mag : In6Addr)
    (clientAlloc magAlloc : Bool) : Except Crash (List ClientRoute) :=
  match find clients clientNai with
  | some client =>
      match addMagToClient client.mags mag magAlloc with
      | .ok mags => .ok (setMags clientNai mags clients)
      | .error crash => .error crash
  | none =>
      if clientAlloc then
        match addMagToClient [] mag magAlloc with
        | .ok mags => .ok (⟨clientNai, mags⟩ :: clients)
        | .error crash => .error crash
      else .ok clients

def removeClientRoute (clients : List ClientRoute) (clientNai : Nai) (mag : In6Addr) :
    Except Crash (List ClientRoute) :=
  match find clients clientNai with
  | none => .error .nullRoute
  | some client =>
      if mag ∈ client.mags then
        if client.mags.erase mag = [] then
          .ok (clients.eraseP fun other => other.clientNai = clientNai)
        else .ok (setMags clientNai (client.mags.erase mag) clients)
      else .error .nullRoute

end ClientRoutes

namespace Daemon

def addClientRoute (d : Daemon) (env : Env) (clientNai : Nai) (mag : In6Addr) : Outcome :=
  match ClientRoutes.addClientRoute d.clients clientNai mag env.clientAlloc env.magAlloc with
  | .ok clients => .ok { d with clients := clients }
  | .error crash => .error (crash, d)

def removeClientRoute (d : Daemon) (clientNai : Nai) (mag : In6Addr) : Outcome :=
  match ClientRoutes.removeClientRoute d.clients clientNai mag with
  | .ok clients => .ok { d with clients := clients }
  | .error crash => .error (crash, d)

def lmaSetupRoute (conf : Conf) (d : Daemon) (pmip6Addr : In6Addr) (tunnel : Int) : Daemon :=
  if conf.tunnelingEnabled then d.emit (.routeAdd tunnel .mip6 pmip6Addr 128) else d

def lmaRemoveRoute (conf : Conf) (d : Daemon) (pmip6Addr : In6Addr) (tunnel : Int) : Daemon :=
  if conf.tunnelingEnabled then d.emit (.routeDel tunnel .mip6 pmip6Addr 128) else d

def lmaRegNoNewTunnel (conf : Conf) (d : Daemon) (env : Env) (bce : Nat) : Daemon :=
  let d := (d.modify bce fun e => { e with status := 0 }).pmipCacheStart env bce
  let e := d.heap bce
  d.mhSendPba env conf.ourAddress e.mnServMagAddr bce e.lifetime

def lmaForward (conf : Conf) (d : Daemon) (bce : Nat) : Daemon :=
  let d := d.getMnAddr bce
  d.lmaSetupRoute conf (d.heap bce).mnAddr (d.heap bce).tunnel

def lmaReg (conf : Conf) (d : Daemon) (env : Env) (bce : Nat) : Outcome := do
  let e := d.heap bce
  let d ← (d.touch [bce]).pmipTunnelAdd conf env bce e.mnServMagAddr e.link
  let d := (d.lmaForward conf bce).lmaRegNoNewTunnel conf env bce
  let e := d.heap bce
  let d ← d.addClientRoute env e.mnNai e.mnServMagAddr
  return d.emit (.linkUp e.mnNai e.mnServMagAddr)

def lmaRelease (conf : Conf) (d : Daemon) (env : Env) (bce : Nat) : Outcome :=
  let d := d.getMnAddr bce
  (d.lmaRemoveRoute conf (d.heap bce).mnAddr (d.heap bce).tunnel).pmipTunnelDel conf env bce

def acknowledge (conf : Conf) (d : Daemon) (env : Env) (bce : Nat) (seqno : Option UInt16) :
    Daemon :=
  match seqno with
  | none => d
  | some seqno =>
      let d := d.modify bce fun e => { e with seqnoIn := seqno }
      d.mhSendPba env conf.lmaAddress (d.heap bce).mnServMagAddr bce ⟨0, 0⟩

/-- `lma_dereg`; `seqno` is that of the update that is acknowledged when the
deregistration is propagated. -/
def lmaDereg (conf : Conf) (d : Daemon) (env : Env) (bce : Nat) (seqno : Option UInt16) :
    Outcome := do
  let d ← (d.delTask bce).lmaRelease conf env bce
  let e := d.heap bce
  let d ← d.removeClientRoute e.mnNai e.mnServMagAddr
  let d := (d.emit (.linkDown e.mnNai e.mnServMagAddr)).acknowledge conf env bce seqno
  return d.modify bce fun e => { e with type := .noEntry }

/-- What the prefix map says about an update: the route and the tunnel of the
entry go when the map's prefix is not the update's, or when it is but another
MAG serves the entry. -/
def lmaCheckPrefix (conf : Conf) (d : Daemon) (env : Env) (bce : Nat) (info : MsgInfo) :
    Outcome :=
  match HnpCache.lmaMnidHnpMap d.hnp (d.heap bce).mnHwAddress with
  | none => .ok d
  | some pfx =>
      if pfx = info.mnPrefix then
        let d := d.modify bce fun e => { e with mnPrefix := pfx }
        let mag := (d.heap bce).mnServMagAddr
        if mag = in6addrAny then .ok d
        else if mag ≠ info.src then d.lmaRelease conf env bce
        else .ok d
      else d.lmaRelease conf env bce

def lmaUpdateBindingEntry (conf : Conf) (d : Daemon) (env : Env) (bce : Nat) (info : MsgInfo) :
    Outcome := do
  let d := d.modify bce fun e =>
    { e with
      ourAddr := conf.ourAddress
      mnSuffix := info.mnIid
      mnHwAddress := eui64ToEui48 info.mnIid
      mnNai := info.mnNai }
  let d ← d.lmaCheckPrefix conf env bce info
  let d := d.modify bce fun e =>
    { e with
      timestamp := info.timestamp
      mnPrefix := info.mnPrefix
      mnLinkLocalAddr := info.mnLinkLocalAddr
      mnServMagAddr := info.src
      lifetime := ⟨info.lifetime.tvSec, 0⟩
      nRetsCounter := conf.maxMessageRetransmissions
      seqnoIn := info.seqno }
  return (d.getMnAddr bce).modify bce fun e => { e with link := info.iif }

end Daemon

end OaiPmip
