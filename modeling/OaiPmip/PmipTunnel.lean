import OaiPmip.TQueue
import OaiPmip.Tunnelctl

/-!
# Shared tunnels, pmip_tunnel.c

Every remote end has a record in `g_tunnel_timer_table` with the tunnel's
interface index and, in dynamic mode, the expiry time of a pending deletion.
A tunnel that loses its last user is kept for
`MaxDelayBeforeDynamicTunnelingDelete`; the task that then deletes it is queued
under the record's own queue element.
-/

set_option autoImplicit false

namespace OaiPmip

abbrev pmipMaxMags : Nat := 64

/-- `tunnel_timer_t`; its queue element is `TqElem.tunnel`. -/
structure TunnelTimer where
  lifetime : Timespec
  tunnel : Int
  remote : In6Addr
  deriving DecidableEq

/-- The queue elements of the daemon: one in every cache entry and one in every
tunnel timer. -/
inductive TqElem where
  | bce (entry : Nat)
  | tunnel (mag : Fin pmipMaxMags)
  deriving DecidableEq

/-- How a run of the daemon can end: a null entry, client route or message
vector is read, `g_tunnel_timer_table` is indexed by -1, or an `assert` fails. -/
inductive Crash where
  | nullEntry
  | nullRoute
  | nullIov
  | tableIndex
  | assertFailed
  deriving DecidableEq

structure Tunnels where
  tq : TQueue TqElem
  timers : Fin pmipMaxMags → TunnelTimer
  ctl : TunnelCtl

namespace Tunnels

/-- `pmip_tunnels_init` up to the creation of static tunnels. -/
def init : Tunnels where
  tq := TQueue.empty TqElem
  timers := fun _ => ⟨⟨0, 0⟩, 0, in6addrAny⟩
  ctl := TunnelCtl.init

/-- `pmip_tunnel_get_timer_index`: the record of the remote end, else the first
free one, else `none` for -1. -/
def pmipTunnelGetTimerIndex (t : Tunnels) (remote : In6Addr) : Option (Fin pmipMaxMags) :=
  match (List.finRange pmipMaxMags).find? fun mag => (t.timers mag).remote = remote with
  | some mag => some mag
  | none => (List.finRange pmipMaxMags).find? fun mag => isUnspecified (t.timers mag).remote

def setTimer (t : Tunnels) (mag : Fin pmipMaxMags) (timer : TunnelTimer) : Tunnels :=
  { t with timers := Function.update t.timers mag timer }

/-- The task that deletes the tunnel of record `mag`. -/
def armTimer (t : Tunnels) (mag : Fin pmipMaxMags) (expires : Timespec) : Tunnels :=
  let t := t.setTimer mag { t.timers mag with lifetime := expires }
  { t with tq := t.tq.addTaskAbs expires (.tunnel mag) .tunnelExpired }

def pmipTunnelSetTimer (t : Tunnels) (now : Timespec) (remote : In6Addr) (timeOut : Timespec) :
    Except Crash Tunnels :=
  let expires := tsadd now timeOut
  match t.pmipTunnelGetTimerIndex remote with
  | none => .error .tableIndex
  | some mag =>
      if ¬ tsisset (t.timers mag).lifetime then .ok (t.armTimer mag expires)
      else if tsafter (t.timers mag).lifetime expires then
        .ok ({ t with tq := t.tq.delTask (.tunnel mag) }.armTimer mag expires)
      else .ok t

def recordTunnel (t : Tunnels) (env : TunnelEnv) (mag : Fin pmipMaxMags)
    (local_ remote : In6Addr) (link : Int) : Tunnels × Int :=
  let (ctl, tunnel) := t.ctl.tunnelAdd env local_ remote link
  let t := { t with ctl := ctl }
  (t.setTimer mag { t.timers mag with tunnel := tunnel, remote := remote }, tunnel)

def pmipTunnelAdd (conf : Conf) (t : Tunnels) (env : TunnelEnv) (local_ remote : In6Addr)
    (link : Int) : Except Crash (Tunnels × Int) :=
  if conf.tunnelingEnabled then
    match t.pmipTunnelGetTimerIndex remote with
    | none => .error .tableIndex
    | some mag =>
        if conf.dynamicTunnelingEnabled then
          if ¬ tsisset (t.timers mag).lifetime then
            .ok (t.recordTunnel env mag local_ remote link)
          else
            -- the pending task goes, the record and the user count stay
            .ok ({ t with tq := t.tq.delTask (.tunnel mag) }, (t.timers mag).tunnel)
        else if (t.timers mag).remote = remote then .ok (t, (t.timers mag).tunnel)
        else if isUnspecified (t.timers mag).remote then
          .ok (t.recordTunnel env mag local_ remote link)
        else .ok (t, -1)
  else .ok (t, 0)

/-- `pmip_tunnels_init` on a gateway, whose egress device is `link`: the static
tunnel to the anchor, if there is to be one. -/
def pmipTunnelsInit (conf : Conf) (env : TunnelEnv) (link : Int) : Except Crash Tunnels :=
  if conf.tunnelingEnabled ∧ ¬ conf.dynamicTunnelingEnabled then
    match init.pmipTunnelAdd conf env conf.magAddressEgress conf.lmaAddress link with
    | .error crash => .error crash
    | .ok (t, _) => .ok t
  else .ok init

def pmipTunnelDel (conf : Conf) (t : Tunnels) (now : Timespec) (tunnel : Int) :
    Except Crash (Tunnels × Int) :=
  if conf.tunnelingEnabled then
    if tunnel > 0 then
      if conf.dynamicTunnelingEnabled then
        if t.ctl.tunnelGetusers tunnel = 1 then
          match (List.finRange pmipMaxMags).find? fun mag => (t.timers mag).tunnel = tunnel with
          | none => .error .assertFailed
          | some mag =>
              match t.pmipTunnelSetTimer now (t.timers mag).remote
                  conf.maxDelayBeforeDynamicTunnelingDelete with
              | .error crash => .error crash
              | .ok t => .ok (t, 0)
        else
          let (ctl, result) := t.ctl.tunnelDel tunnel
          .ok ({ t with ctl := ctl }, result)
      else .ok (t, 0)
    else .ok (t, -1)
  else .ok (t, 0)

/-- `pmip_timer_tunnel_expired_handler`, after the runner took the element off
the queue. -/
def pmipTimerTunnelExpiredHandler (t : Tunnels) (mag : Fin pmipMaxMags) : Tunnels :=
  let t := { t with ctl := (t.ctl.tunnelDel (t.timers mag).tunnel).1 }
  t.setTimer mag { t.timers mag with lifetime := ⟨0, 0⟩ }

/-! ## How the calls fail -/

section Failures
variable {conf : Conf} {t : Tunnels} {crash : Crash}

theorem pmipTunnelAdd_crash {env : TunnelEnv} {l r : In6Addr} {link : Int}
    (failed : t.pmipTunnelAdd conf env l r link = .error crash) : crash = .tableIndex := by
  simp only [pmipTunnelAdd] at failed
  split at failed
  · split at failed
    · cases failed
      rfl
    · split at failed
      · split at failed <;> cases failed
      · split at failed
        · cases failed
        · split at failed <;> cases failed
  · cases failed

theorem pmipTunnelSetTimer_crash {now timeOut : Timespec} {r : In6Addr}
    (failed : t.pmipTunnelSetTimer now r timeOut = .error crash) : crash = .tableIndex := by
  unfold pmipTunnelSetTimer at failed
  simp only at failed
  split at failed
  · cases failed
    rfl
  · split at failed
    · cases failed
    · split at failed <;> cases failed

theorem pmipTunnelDel_crash {now : Timespec} {tunnel : Int}
    (failed : t.pmipTunnelDel conf now tunnel = .error crash) :
    crash = .tableIndex ∨ crash = .assertFailed := by
  simp only [pmipTunnelDel] at failed
  split at failed
  · split at failed
    · split at failed
      · split at failed
        · split at failed
          · cases failed
            exact Or.inr rfl
          · split at failed
            · rename_i unset
              cases failed
              exact Or.inl (pmipTunnelSetTimer_crash unset)
            · cases failed
        · cases failed
      · cases failed
    · cases failed
  · cases failed

end Failures

end Tunnels

end OaiPmip
