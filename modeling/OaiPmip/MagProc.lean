import OaiPmip.HnpCache

/-!
# Mobile access gateway procedures, pmip_mag_proc.c
-/

set_option autoImplicit false

namespace OaiPmip.Daemon

def ip6RulePrioPmip6Fwd : Nat := 1000

/-- `IP6_MH_BU_ACK | IP6_MH_BU_PR` on a little-endian host. -/
def pbuFlagsAckPr : UInt16 := 0x0080 ||| 0x0002

def magSetupRoute (conf : Conf) (d : Daemon) (pmip6Addr : In6Addr) (downlink : Int) : Daemon :=
  let d := d.emit (.ruleAdd .mip6 (ip6RulePrioPmip6Fwd - 1) in6addrAny 0 pmip6Addr 128)
  let d := if conf.tunnelingEnabled then
      d.emit (.ruleAdd .pmip ip6RulePrioPmip6Fwd pmip6Addr 128 in6addrAny 0)
    else d
  d.emit (.routeAdd downlink .mip6 pmip6Addr 128)

def magRemoveRoute (conf : Conf) (d : Daemon) (pmip6Addr : In6Addr) (downlink : Int) : Daemon :=
  let d := d.emit (.ruleDel .mip6 (ip6RulePrioPmip6Fwd - 1) in6addrAny 0 pmip6Addr 128)
  let d := if conf.tunnelingEnabled then
      d.emit (.ruleDel .pmip ip6RulePrioPmip6Fwd pmip6Addr 128 in6addrAny 0)
    else d
  d.emit (.routeDel downlink .mip6 pmip6Addr 128)

def magKickoffRa (d : Daemon) (bce : Nat) : Daemon :=
  let e := d.heap bce
  (d.touch [bce]).emit (.sendRa e.link e.mnLinkLocalAddr e.mnPrefix)

def magUnroute (conf : Conf) (d : Daemon) (bce : Nat) : Daemon :=
  let d := (d.modify bce fun e => { e with type := .noEntry }).getMnAddr bce
  d.magRemoveRoute conf (d.heap bce).mnAddr (d.heap bce).link

def magUplinkDel (d : Daemon) (bce : Nat) : Daemon :=
  let tunnel := (d.heap bce).tunnel
  if d.tun.ctl.tunnelGetusers tunnel = 1 then d.emit (.routeDel tunnel .pmip in6addrAny 0) else d

def magUplinkAdd (d : Daemon) (bce : Nat) : Daemon :=
  let tunnel := (d.heap bce).tunnel
  if d.tun.ctl.tunnelGetusers tunnel = 1 then d.emit (.routeAdd tunnel .pmip in6addrAny 0) else d

def magDereg (conf : Conf) (d : Daemon) (env : Env) (bce : Nat) (propagate : Bool) : Outcome := do
  let d ← ((d.magUnroute conf bce).magUplinkDel bce).pmipTunnelDel conf env bce
  if propagate then
    return d.mhSendPbu env conf.ourAddress conf.lmaAddress bce ⟨0, 0⟩
  else return d

def startRetransmission (conf : Conf) (d : Daemon) (env : Env) (bce : Nat) : Daemon :=
  d.addTask env.now conf.retransmissionTimeOut bce .retransPbu

def magStartRegistration (conf : Conf) (d : Daemon) (env : Env) (bce : Nat) : Daemon :=
  let d := d.mhSendPbu env conf.magAddressEgress conf.lmaAddress bce ⟨10, 0⟩
  d.startRetransmission conf env bce

def registered (conf : Conf) (d : Daemon) (env : Env) (bce : Nat) : Daemon :=
  let d := d.modify bce fun e =>
    { e with type := .pmip, nRetsCounter := conf.maxMessageRetransmissions }
  d.pmipCacheStart env bce

def magEndRegistration (conf : Conf) (d : Daemon) (env : Env) (bce : Nat) (iif : Int) :
    Outcome := do
  let d ← (d.registered conf env bce).pmipTunnelAdd conf env bce conf.lmaAddress iif
  let d := ((d.magUplinkAdd bce).magKickoffRa bce).getMnAddr bce
  return d.magSetupRoute conf (d.heap bce).mnAddr (d.heap bce).link

def magEndRegistrationNoNewTunnel (conf : Conf) (d : Daemon) (env : Env) (bce : Nat) : Daemon :=
  (d.registered conf env bce).magKickoffRa bce

def magForceUpdateRegistration (conf : Conf) (d : Daemon) (env : Env) (bce : Nat) : Daemon :=
  let d := if (d.tun.tq.task (.bce bce)).isSome then d.delTask bce else d.touch [bce]
  let d := d.mhSendPbu env conf.magAddressEgress conf.lmaAddress bce conf.pbuLifeTime
  d.startRetransmission conf env bce

def magPmipMd (conf : Conf) (d : Daemon) (env : Env) (info : MsgInfo) (bce : Nat) : Daemon :=
  let d := d.modify bce fun e =>
    { e with
      ourAddr := conf.ourAddress
      mnSuffix := info.mnIid
      mnPrefix := info.mnPrefix
      mnServMagAddr := conf.ourAddress
      mnServLmaAddr := conf.lmaAddress
      seqnoOut := 0
      pbuFlags := pbuFlagsAckPr
      link := info.iif
      mnLinkLocalAddr := linkLocalAddr info.mnIid
      type := .temp }
  d.magStartRegistration conf env bce

end OaiPmip.Daemon
