import OaiPmip.MagUplink

/-!
# The gateway's dynamic tunnel

Whatever the kernel answers, the gateway lists at most one device when tunnels
are dynamic, and the first record of the table names it.  So a deregistration
always finds the record of the tunnel that it releases.
-/

set_option autoImplicit false

namespace OaiPmip

open OaiPmip.ChainTable OaiPmip.HashChains OaiPmip.HashKeys OaiPmip.Runs

namespace Tunnels

def lmaKey (conf : Conf) : AddrKey := addrKey .doubleAddr conf.ourAddress conf.lmaAddress

attribute [local instance] tnlBuckets_neZero in
def Devices (conf : Conf) (c : TunnelCtl) (tunnel : Int) : Prop :=
  (c.tnlList = [] ∧ c.tnlHash = ChainTable.empty tnlBuckets Ptr) ∨
    ∃ tnl, c.tnlList = [tnl] ∧ c.tnlKey tnl = lmaKey conf ∧ (c.heap tnl).ifindex = tunnel ∧
      c.tnlHash = append (ChainTable.empty tnlBuckets Ptr) (calcAddrHash tnlBuckets (lmaKey conf)) tnl

structure Recorded (conf : Conf) (t : Tunnels) : Prop where
  others : ∀ mag, mag ≠ firstMag → (t.timers mag).remote = in6addrAny
  home : (t.timers firstMag).remote = conf.lmaAddress ∨ (t.timers firstMag).remote = in6addrAny
  devices : Devices conf t.ctl (t.timers firstMag).tunnel

theorem Devices.add {conf : Conf} {c : TunnelCtl} {tunnel : Int} (devices : Devices conf c tunnel)
    (env : TunnelEnv) (link : Int) :
    Devices conf (c.tunnelAdd env conf.ourAddress conf.lmaAddress link).1
      (c.tunnelAdd env conf.ourAddress conf.lmaAddress link).2 := by
  rcases devices with ⟨unlisted, empty⟩ | ⟨tnl, listed, isKey, isIndex, chains⟩
  · have missing : ChainTable.get (calcAddrHash tnlBuckets) c.tnlKey c.tnlHash
        (addrKey .doubleAddr conf.ourAddress conf.lmaAddress) = none := by
      simp [ChainTable.get, empty, ChainTable.empty]
    simp only [TunnelCtl.tunnelAdd, missing, TunnelCtl.createTnl]
    cases made : env.ifindex with
    | none => exact Or.inl ⟨unlisted, empty⟩
    | some ifindex =>
        have isKey : (c.withRecord ⟨conf.ourAddress, conf.lmaAddress, link, ifindex, 1⟩).tnlKey
            c.top = lmaKey conf := by
          simp [TunnelCtl.tnlKey, TunnelCtl.withRecord, lmaKey]
        cases memory : env.nodeAlloc with
        | false =>
            simp only [tableAdd, Bool.false_eq_true, if_false]
            exact Or.inl ⟨unlisted, empty⟩
        | true =>
            have blank : (c.withRecord ⟨conf.ourAddress, conf.lmaAddress, link, ifindex, 1⟩).tnlHash =
                ChainTable.empty tnlBuckets Ptr := empty
            have added : tableAdd (calcAddrHash tnlBuckets)
                (c.withRecord ⟨conf.ourAddress, conf.lmaAddress, link, ifindex, 1⟩).tnlKey
                (c.withRecord ⟨conf.ourAddress, conf.lmaAddress, link, ifindex, 1⟩).tnlHash
                c.top true = (append (ChainTable.empty tnlBuckets Ptr)
                  (calcAddrHash tnlBuckets (lmaKey conf)) c.top, 0) := by
              rw [blank, tableAdd_new (by simp), isKey]
            simp only [added, Int.lt_irrefl, if_false]
            refine Or.inr ⟨c.top, ?_, isKey, ?_, rfl⟩
            · simp [TunnelCtl.withRecord, unlisted]
            · simp [TunnelCtl.withRecord]
  · have found : ChainTable.get (calcAddrHash tnlBuckets) c.tnlKey c.tnlHash
        (addrKey .doubleAddr conf.ourAddress conf.lmaAddress) = some tnl := by
      have same : addrKey .doubleAddr conf.ourAddress conf.lmaAddress = lmaKey conf := rfl
      simp [ChainTable.get, chains, ChainTable.empty, append, same, isKey]
    simp only [TunnelCtl.tunnelAdd, found]
    refine Or.inr ⟨tnl, listed, ?_, ?_, chains⟩
    · rw [TunnelCtl.setUsers_tnlKey]
      exact isKey
    · exact (TunnelCtl.setUsers_heap c tnl tnl _).2.2

theorem Devices.del {conf : Conf} {c : TunnelCtl} {tunnel : Int} (devices : Devices conf c tunnel)
    (ifindex : Int) : Devices conf (c.tunnelDel ifindex).1 tunnel := by
  rcases devices with ⟨unlisted, empty⟩ | ⟨tnl, listed, isKey, isIndex, chains⟩
  · have missing : c.getTnl ifindex = none := by simp [TunnelCtl.getTnl, unlisted]
    simp only [TunnelCtl.tunnelDel, missing]
    exact Or.inl ⟨unlisted, empty⟩
  · have kept : Devices conf c tunnel := Or.inr ⟨tnl, listed, isKey, isIndex, chains⟩
    simp only [TunnelCtl.tunnelDel]
    split
    · exact kept
    · rename_i other found
      have same : other = tnl := by
        have member := (TunnelCtl.getTnl_some found).1
        rw [listed] at member
        exact List.mem_singleton.mp member
      subst same
      simp only [TunnelCtl.releaseTnl]
      split
      · left
        constructor
        · simp [TunnelCtl.setUsers, listed]
        · rw [TunnelCtl.setUsers_tnlKey, isKey]
          have hash : (c.setUsers other ((c.heap other).users - 1)).tnlHash = c.tnlHash := rfl
          rw [hash, chains]
          funext b
          by_cases here : b = calcAddrHash tnlBuckets (lmaKey conf)
          · subst here
            simp [ChainTable.erase, append, ChainTable.empty, isKey]
          · simp [ChainTable.erase, append, ChainTable.empty, Function.update_of_ne here]
      · refine Or.inr ⟨other, listed, ?_, ?_, chains⟩
        · rw [TunnelCtl.setUsers_tnlKey]
          exact isKey
        · rw [(TunnelCtl.setUsers_heap c other other _).2.2]
          exact isIndex

namespace Recorded

variable {conf : Conf} {t t' : Tunnels}

theorem index (recorded : Recorded conf t) :
    t.pmipTunnelGetTimerIndex conf.lmaAddress = some firstMag :=
  getTimerIndex_first recorded.others recorded.home

theorem of_lifetimes (recorded : Recorded conf t) (ctl : t'.ctl = t.ctl)
    (timers : ∀ mag, (t'.timers mag).remote = (t.timers mag).remote ∧
      (t'.timers mag).tunnel = (t.timers mag).tunnel) : Recorded conf t' where
  others := by
    intro mag other
    rw [(timers mag).1]
    exact recorded.others mag other
  home := by
    rw [(timers firstMag).1]
    exact recorded.home
  devices := by
    rw [ctl, (timers firstMag).2]
    exact recorded.devices

theorem lifetime (t : Tunnels) (mag other : Fin pmipMaxMags) (lifetime : Timespec) :
    ((t.setTimer mag { t.timers mag with lifetime := lifetime }).timers other).remote =
        (t.timers other).remote ∧
      ((t.setTimer mag { t.timers mag with lifetime := lifetime }).timers other).tunnel =
        (t.timers other).tunnel := by
  by_cases here : other = mag
  · subst here
    simp [setTimer]
  · simp [setTimer, Function.update_of_ne here]

theorem record (recorded : Recorded conf t) (env : TunnelEnv) (link : Int) :
    Recorded conf (t.recordTunnel env firstMag conf.ourAddress conf.lmaAddress link).1 := by
  have timer : (t.recordTunnel env firstMag conf.ourAddress conf.lmaAddress link).1.timers
      firstMag = { t.timers firstMag with
        tunnel := (t.ctl.tunnelAdd env conf.ourAddress conf.lmaAddress link).2
        remote := conf.lmaAddress } := by
    simp [recordTunnel, setTimer]
  refine ⟨?_, ?_, ?_⟩
  · intro mag other
    have unchanged : (t.recordTunnel env firstMag conf.ourAddress conf.lmaAddress link).1.timers
        mag = t.timers mag := by
      simp [recordTunnel, setTimer, Function.update_of_ne other]
    rw [unchanged]
    exact recorded.others mag other
  · rw [timer]
    exact Or.inl rfl
  · rw [timer]
    exact recorded.devices.add env link

theorem add (recorded : Recorded conf t) (dynamic : conf.dynamicTunnelingEnabled = true)
    {env : TunnelEnv} {link tunnel : Int}
    (added : t.pmipTunnelAdd conf env conf.ourAddress conf.lmaAddress link = .ok (t', tunnel)) :
    Recorded conf t' := by
  simp only [pmipTunnelAdd, recorded.index, dynamic, if_true] at added
  have made := recorded.record env link
  split at added
  · split at added
    · cases added
      exact made
    · cases added
      exact recorded.of_lifetimes rfl fun _ => ⟨rfl, rfl⟩
  · cases added
    exact recorded

theorem armed (recorded : Recorded conf t) {now timeOut : Timespec} {remote : In6Addr}
    (set_ : t.pmipTunnelSetTimer now remote timeOut = .ok t') : Recorded conf t' := by
  simp only [pmipTunnelSetTimer] at set_
  split at set_
  · cases set_
  · rename_i mag _
    split at set_
    · cases set_
      exact recorded.of_lifetimes rfl fun other => lifetime t mag other _
    · split at set_
      · cases set_
        exact recorded.of_lifetimes rfl fun other => lifetime t mag other _
      · cases set_
        exact recorded

theorem del (recorded : Recorded conf t) {now : Timespec} {tunnel result : Int}
    (deleted : t.pmipTunnelDel conf now tunnel = .ok (t', result)) : Recorded conf t' := by
  simp only [pmipTunnelDel] at deleted
  split at deleted
  · split at deleted
    · split at deleted
      · split at deleted
        · split at deleted
          · cases deleted
          · split at deleted
            · cases deleted
            · rename_i armed
              cases deleted
              exact recorded.armed armed
        · cases deleted
          exact ⟨recorded.others, recorded.home, recorded.devices.del tunnel⟩
      · cases deleted
        exact recorded
    · cases deleted
      exact recorded
  · cases deleted
    exact recorded

theorem releases (recorded : Recorded conf t) (now : Timespec) (tunnel : Int) :
    ∃ result, t.pmipTunnelDel conf now tunnel = .ok result := by
  simp only [pmipTunnelDel]
  split
  · split
    · split
      · split
        · rename_i single
          have isRecord : (t.timers firstMag).tunnel = tunnel := by
            rcases recorded.devices with ⟨unlisted, -⟩ | ⟨tnl, listed, -, isIndex, -⟩
            · simp [TunnelCtl.tunnelGetusers, TunnelCtl.getTnl, unlisted] at single
            · simp only [TunnelCtl.tunnelGetusers] at single
              split at single
              · cases single
              · rename_i found
                obtain ⟨member, index⟩ := TunnelCtl.getTnl_some found
                rw [listed] at member
                rw [← isIndex, ← index, List.mem_singleton.mp member]
          rw [find_firstMag (by simpa using isRecord)]
          have isHere : t.pmipTunnelGetTimerIndex (t.timers firstMag).remote = some firstMag :=
            getTimerIndex_first recorded.others (Or.inl rfl)
          simp only [pmipTunnelSetTimer, isHere]
          split
          · rename_i failed
            split at failed
            · cases failed
            · split at failed
              · cases failed
              · cases failed
          · exact ⟨_, rfl⟩
        · exact ⟨_, rfl⟩
      · exact ⟨_, rfl⟩
    · exact ⟨_, rfl⟩
  · exact ⟨_, rfl⟩

theorem expired (recorded : Recorded conf t) (mag : Fin pmipMaxMags) :
    Recorded conf (t.pmipTimerTunnelExpiredHandler mag) := by
  have deleted : Recorded conf { t with ctl := (t.ctl.tunnelDel (t.timers mag).tunnel).1 } :=
    ⟨recorded.others, recorded.home, recorded.devices.del _⟩
  exact deleted.of_lifetimes rfl fun other => lifetime _ mag other _

end Recorded

theorem recorded_init {conf : Conf} (dynamic : conf.dynamicTunnelingEnabled = true)
    {kernel : TunnelEnv} {link : Int} {t : Tunnels}
    (started : pmipTunnelsInit conf kernel link = .ok t) : Recorded conf t := by
  simp only [pmipTunnelsInit, dynamic, not_true_eq_false, and_false, if_false] at started
  cases started
  exact ⟨fun _ _ => rfl, Or.inr rfl, Or.inl ⟨rfl, rfl⟩⟩

theorem static_releases {conf : Conf} {t : Tunnels}
    (static_ : conf.dynamicTunnelingEnabled ≠ true) (now : Timespec) (tunnel : Int) :
    ∃ result, t.pmipTunnelDel conf now tunnel = .ok result := by
  simp only [pmipTunnelDel, if_neg static_]
  split
  · split
    · exact ⟨_, rfl⟩
    · exact ⟨_, rfl⟩
  · exact ⟨_, rfl⟩

end Tunnels

namespace Daemon

/-! ## The tunnels along a step -/

section Recorded
variable {conf : Conf} {d d' : Daemon} {env : Env}

theorem recorded_steady (recorded : Tunnels.Recorded conf d.tun) (steady : Steady d d') :
    Tunnels.Recorded conf d'.tun :=
  recorded.of_lifetimes steady.ctl fun mag => by rw [steady.timers]; exact ⟨rfl, rfl⟩

theorem recorded_magEndRegistration (recorded : Tunnels.Recorded conf d.tun)
    (dynamic : conf.dynamicTunnelingEnabled = true) {bce : Nat} {iif : Int}
    (ended : d.magEndRegistration conf env bce iif = .ok d') : Tunnels.Recorded conf d'.tun := by
  obtain ⟨tunnelled, added, rest⟩ := bind_eq_ok.mp ended
  have before := recorded_steady recorded (steady_registered conf d env bce)
  have opened : Tunnels.Recorded conf tunnelled.tun := by
    simp only [pmipTunnelAdd] at added
    split at added
    · cases added
    · rename_i made
      cases added
      exact before.add dynamic made
  have same : ((((tunnelled.magUplinkAdd bce).magKickoffRa bce).getMnAddr bce)).tun =
      tunnelled.tun := by
    simp only [magUplinkAdd]
    split
    · rfl
    · rfl
  cases rest
  refine recorded_steady ?_ (steady_magSetupRoute conf _ _ _)
  rw [same]
  exact opened

theorem recorded_magDereg (recorded : Tunnels.Recorded conf d.tun) {bce : Nat}
    (dereg : d.magDereg conf env bce true = .ok d') : Tunnels.Recorded conf d'.tun := by
  obtain ⟨released, deleted, rest⟩ := bind_eq_ok.mp dereg
  have unrouted := recorded_steady recorded (steady_magUnroute conf d bce)
  have same : ((d.magUnroute conf bce).magUplinkDel bce).tun = (d.magUnroute conf bce).tun := by
    simp only [magUplinkDel]
    split
    · rfl
    · rfl
  rw [← same] at unrouted
  have closed : Tunnels.Recorded conf released.tun := by
    simp only [pmipTunnelDel] at deleted
    split at deleted
    · cases deleted
    · rename_i gone
      cases deleted
      exact unrouted.del gone
  cases rest
  exact recorded_steady closed (steady_mhSendPbu _ env bce _ _ _)

theorem magDereg_succeeds {conf : Conf} {d : Daemon} (env : Env) (bce : Nat)
    (recorded : conf.dynamicTunnelingEnabled = true → Tunnels.Recorded conf d.tun) :
    ∃ d', d.magDereg conf env bce true = .ok d' := by
  have same : ((d.magUnroute conf bce).magUplinkDel bce).tun = (d.magUnroute conf bce).tun := by
    simp only [magUplinkDel]
    split
    · rfl
    · rfl
  have released : ∃ next, ((d.magUnroute conf bce).magUplinkDel bce).pmipTunnelDel conf env bce =
      .ok next := by
    have goes : ∀ tunnel, ∃ result, ((d.magUnroute conf bce).magUplinkDel bce).tun.pmipTunnelDel
        conf env.now tunnel = .ok result := by
      intro tunnel
      rw [same]
      by_cases dynamic : conf.dynamicTunnelingEnabled = true
      · exact (recorded_steady (recorded dynamic) (steady_magUnroute conf d bce)).releases _ _
      · exact Tunnels.static_releases dynamic _ _
    obtain ⟨⟨tun, result⟩, deleted⟩ := goes
      (((d.magUnroute conf bce).magUplinkDel bce).heap bce).tunnel
    simp only [pmipTunnelDel, deleted]
    exact ⟨_, rfl⟩
  obtain ⟨next, deleted⟩ := released
  exact ⟨_, bind_eq_ok.mpr ⟨next, deleted, rfl⟩⟩

theorem move_recorded (recorded : Tunnels.Recorded conf d.tun)
    (dynamic : conf.dynamicTunnelingEnabled = true) {input : MagInput}
    (move : MagMove conf d input d') : Tunnels.Recorded conf d'.tun := by
  have deleted : ∀ {start : Daemon} (bce : Nat), Tunnels.Recorded conf start.tun →
      Tunnels.Recorded conf (start.pmipBceDelete bce).tun := fun bce before =>
    before.of_lifetimes rfl fun _ => ⟨rfl, rfl⟩
  cases move with
  | looked used => exact recorded
  | leaked used => exact recorded
  | registered used _ _ _ =>
      exact recorded_steady recorded ((steady_touch d used).trans
        ((steady_registering conf _ _ _ _ _ _).trans (steady_pmipCacheAdd conf _ _ _)))
  | worked _ work => exact recorded_steady recorded work.steady
  | attached _ _ _ work ended =>
      exact recorded_magEndRegistration (recorded_steady recorded work.steady) dynamic ended
  | detached _ _ work dereg =>
      exact deleted _ (recorded_magDereg (recorded_steady recorded work.steady) dereg)
  | dropped _ _ work => exact deleted _ (recorded_steady recorded work.steady)
  | @tunnelExpired _ mag _ =>
      have stopped : Tunnels.Recorded conf { d.tun with tq := d.tun.tq.delTask (.tunnel mag) } :=
        recorded.of_lifetimes rfl fun _ => ⟨rfl, rfl⟩
      exact stopped.expired mag

end Recorded

end Daemon

end OaiPmip
