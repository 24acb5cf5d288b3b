import OaiPmip.MagMoves

/-!
# The gateway's uplink route

The end of a registration installs the default route through the entry's tunnel
when the tunnel reports one user, and a deregistration removes it when the
tunnel reports one user.  With a static tunnel the count is one for ever.  With
dynamic tunnels the gateway has one device, to the anchor, and its record is
the first of the table: while no deletion is on record the route of the device
is installed, and once one is on record the device has a single user, so that
the next registration installs the route again.
-/

set_option autoImplicit false

namespace OaiPmip

open OaiPmip.HashKeys OaiPmip.Runs

namespace Tunnels

def Creates (c : TunnelCtl) (env : TunnelEnv) : Prop :=
  env.nodeAlloc = true ∧ env.ifindex.isSome ∧ ∀ index ∈ env.ifindex, c.Fresh index

instance (c : TunnelCtl) (env : TunnelEnv) : Decidable (Creates c env) :=
  inferInstanceAs (Decidable (_ ∧ _ ∧ ∀ _, _ → _))

def firstMag : Fin pmipMaxMags := ⟨0, by decide⟩

theorem find_firstMag {p : Fin pmipMaxMags → Bool} (first : p firstMag = true) :
    (List.finRange pmipMaxMags).find? p = some firstMag := by
  have split : List.finRange pmipMaxMags = firstMag :: (List.finRange 63).map Fin.succ :=
    List.finRange_succ
  rw [split, List.find?_cons_of_pos first]

variable {conf : Conf} {t t' : Tunnels}

theorem getTimerIndex_first {remote : In6Addr}
    (others : ∀ mag, mag ≠ firstMag → (t.timers mag).remote = in6addrAny)
    (home : (t.timers firstMag).remote = remote ∨ (t.timers firstMag).remote = in6addrAny) :
    t.pmipTunnelGetTimerIndex remote = some firstMag := by
  simp only [pmipTunnelGetTimerIndex]
  by_cases here : (t.timers firstMag).remote = remote
  · rw [find_firstMag (by simpa using here)]
  · have free := home.resolve_left here
    have unknown : ∀ mag, (t.timers mag).remote ≠ remote := by
      intro mag same
      by_cases first : mag = firstMag
      · exact here (first ▸ same)
      · rw [others mag first, ← free] at same
        exact here same
    have missing : (List.finRange pmipMaxMags).find? (fun mag => (t.timers mag).remote = remote) =
        none := List.find?_eq_none.mpr fun mag _ => by simpa using unknown mag
    rw [missing]
    exact find_firstMag (by simpa [isUnspecified] using free)

def joined (installed : Int → Bool) (users tunnel : Int) : Int → Bool :=
  if users = 1 then Function.update installed tunnel true else installed

def left (installed : Int → Bool) (users tunnel : Int) : Int → Bool :=
  if users = 1 then Function.update installed tunnel false else installed

theorem joined_of_installed {installed : Int → Bool} {tunnel : Int}
    (before : installed tunnel = true) (users other : Int) :
    joined installed users other tunnel = true := by
  simp only [joined]
  split
  · by_cases same : tunnel = other
    · rw [same, Function.update_self]
    · rw [Function.update_of_ne same]
      exact before
  · exact before

theorem joined_single (installed : Int → Bool) (tunnel : Int) :
    joined installed 1 tunnel tunnel = true := by
  simp [joined]

end Tunnels

open Tunnels

/-- The record of the anchor names a tunnel with one user, and no deletion is
queued. -/
structure StaticOk (conf : Conf) (t : Tunnels) : Prop where
  record : ∃ mag, t.pmipTunnelGetTimerIndex conf.lmaAddress = some mag ∧
    (t.timers mag).remote = conf.lmaAddress ∧ t.ctl.tunnelGetusers (t.timers mag).tunnel = 1
  quiet : ∀ mag, .tunnel mag ∉ t.tq.list

namespace StaticOk

variable {conf : Conf} {t t' : Tunnels}

theorem add (ok : StaticOk conf t) (tunnelling : conf.tunnelingEnabled = true)
    (static_ : conf.dynamicTunnelingEnabled = false) {env : TunnelEnv} {loc : In6Addr}
    {link tunnel : Int}
    (added : t.pmipTunnelAdd conf env loc conf.lmaAddress link = .ok (t', tunnel)) :
    t' = t ∧ t.ctl.tunnelGetusers tunnel = 1 := by
  obtain ⟨mag, found, remote, users⟩ := ok.record
  simp only [pmipTunnelAdd] at added
  rw [if_pos tunnelling, found] at added
  simp only [static_, Bool.false_eq_true, if_false, remote, if_true] at added
  cases added
  exact ⟨rfl, users⟩

theorem del (tunnelling : conf.tunnelingEnabled = true)
    (static_ : conf.dynamicTunnelingEnabled = false) {now : Timespec} {tunnel result : Int}
    (deleted : t.pmipTunnelDel conf now tunnel = .ok (t', result)) : t' = t := by
  simp only [pmipTunnelDel] at deleted
  rw [if_pos tunnelling] at deleted
  simp only [static_, Bool.false_eq_true, if_false] at deleted
  split at deleted
  · cases deleted
    rfl
  · cases deleted
    rfl

end StaticOk

/-! ## Dynamic tunnels -/

/-- The only device of the gateway is that of the first record.  While no
deletion is on record its route is installed; with one on record it has a
single user. -/
structure DynamicOk (conf : Conf) (t : Tunnels) (installed : Int → Bool) : Prop where
  ok : t.ctl.Ok
  others : ∀ mag, mag ≠ firstMag →
    (t.timers mag).tunnel = 0 ∧ (t.timers mag).remote = in6addrAny
  home : (t.timers firstMag).remote = conf.lmaAddress ∨
    (t.timers firstMag).remote = in6addrAny
  devices : ∀ l r i u, t.ctl.device l r = some (i, u) →
    l = conf.ourAddress ∧ r = conf.lmaAddress ∧ i = (t.timers firstMag).tunnel
  idle : tsisset (t.timers firstMag).lifetime = false →
    ∀ u, t.ctl.device conf.ourAddress conf.lmaAddress = some ((t.timers firstMag).tunnel, u) →
      installed (t.timers firstMag).tunnel = true
  pending : tsisset (t.timers firstMag).lifetime = true →
    t.ctl.device conf.ourAddress conf.lmaAddress = some ((t.timers firstMag).tunnel, 1)

namespace DynamicOk

variable {conf : Conf} {t t' : Tunnels} {installed : Int → Bool}

theorem index_lma (inv : DynamicOk conf t installed) :
    t.pmipTunnelGetTimerIndex conf.lmaAddress = some firstMag :=
  getTimerIndex_first (fun mag other => (inv.others mag other).2) inv.home

theorem device_of_single (inv : DynamicOk conf t installed) {tunnel : Int}
    (single : t.ctl.tunnelGetusers tunnel = 1) :
    tunnel = (t.timers firstMag).tunnel ∧ 0 < tunnel ∧
      t.ctl.device conf.ourAddress conf.lmaAddress = some (tunnel, 1) := by
  obtain ⟨l, r, found⟩ := TunnelCtl.device_of_getusers inv.ok (i := tunnel) (by omega)
  rw [single] at found
  obtain ⟨rfl, rfl, isTunnel⟩ := inv.devices l r tunnel 1 found
  obtain ⟨p, member, _, _, index, _⟩ := TunnelCtl.device_some found
  have positive := inv.ok.positive p (inv.ok.below p member)
  rw [index] at positive
  exact ⟨isTunnel, positive, found⟩

theorem record (inv : DynamicOk conf t installed)
    (unset : tsisset (t.timers firstMag).lifetime = false) {env : TunnelEnv}
    (creates : Creates t.ctl env) (link : Int) :
    let added := t.recordTunnel env firstMag conf.ourAddress conf.lmaAddress link
    let users := added.1.ctl.tunnelGetusers added.2
    DynamicOk conf added.1 (joined installed users added.2) ∧
      joined installed users added.2 added.2 = true := by
  intro added users
  obtain ⟨nodeOk, isMade, fresh⟩ := creates
  obtain ⟨index, made⟩ := Option.isSome_iff_exists.mp isMade
  obtain ⟨ok', device, same, others, _⟩ := TunnelCtl.tunnelAdd_spec inv.ok made nodeOk
    (fresh index made) conf.ourAddress conf.lmaAddress link
  have timer : added.1.timers firstMag =
      { t.timers firstMag with tunnel := added.2, remote := conf.lmaAddress } := by
    simp [added, recordTunnel, setTimer]
  have counted : users = _ := TunnelCtl.getusers_of_device ok' device
  have routed : joined installed users added.2 added.2 = true := by
    cases before : t.ctl.device conf.ourAddress conf.lmaAddress with
    | none =>
        rw [before] at counted
        rw [counted]
        exact joined_single installed added.2
    | some pair =>
        obtain ⟨i, u⟩ := pair
        obtain ⟨_, _, isTunnel⟩ := inv.devices _ _ i u before
        have kept : added.2 = (t.timers firstMag).tunnel := (same i u before).trans isTunnel
        apply joined_of_installed
        rw [kept]
        exact inv.idle unset u (isTunnel ▸ before)
  refine ⟨?_, routed⟩
  refine {
    ok := ok'
    others := ?_
    home := ?_
    devices := ?_
    idle := ?_
    pending := ?_ }
  · intro mag other
    have unchanged : added.1.timers mag = t.timers mag := by
      simp [added, recordTunnel, setTimer, Function.update_of_ne other]
    rw [unchanged]
    exact inv.others mag other
  · rw [timer]
    exact Or.inl rfl
  · intro l r i u found
    rw [timer]
    by_cases ends : (l, r) = (conf.ourAddress, conf.lmaAddress)
    · obtain ⟨rfl, rfl⟩ := Prod.mk.inj ends
      have shown := found.symm.trans device
      exact ⟨rfl, rfl, (Prod.mk.inj (Option.some.inj shown)).1⟩
    · have before := (others l r ends).symm.trans found
      obtain ⟨isLocal, isRemote, _⟩ := inv.devices l r i u before
      exact absurd (Prod.ext isLocal isRemote) ends
  · intro _ _ _
    rw [timer]
    exact routed
  · intro set_
    rw [timer] at set_
    exact absurd (unset.symm.trans set_) (by simp)

theorem add (inv : DynamicOk conf t installed) (tunnelling : conf.tunnelingEnabled = true)
    (dynamic : conf.dynamicTunnelingEnabled = true) {env : TunnelEnv}
    (creates : Creates t.ctl env) {link tunnel : Int}
    (added : t.pmipTunnelAdd conf env conf.ourAddress conf.lmaAddress link = .ok (t', tunnel)) :
    DynamicOk conf t' (joined installed (t'.ctl.tunnelGetusers tunnel) tunnel) ∧
      joined installed (t'.ctl.tunnelGetusers tunnel) tunnel tunnel = true := by
  simp only [pmipTunnelAdd] at added
  rw [if_pos tunnelling, inv.index_lma] at added
  simp only [dynamic, if_true] at added
  cases set_ : tsisset (t.timers firstMag).lifetime with
  | false =>
      simp only [set_, Bool.false_eq_true, not_false_eq_true, if_true] at added
      have result := inv.record set_ creates link
      cases added
      exact result
  | true =>
      -- the device keeps its single user
      simp only [set_, not_true_eq_false, if_false] at added
      cases added
      have device := inv.pending set_
      have single : t.ctl.tunnelGetusers (t.timers firstMag).tunnel = 1 :=
        TunnelCtl.getusers_of_device inv.ok device
      have routed := joined_single installed (t.timers firstMag).tunnel
      simp only [single]
      exact ⟨{ inv with idle := fun _ _ _ => routed }, routed⟩

theorem armed (inv : DynamicOk conf t installed) {tunnel : Int}
    (single : t.ctl.tunnelGetusers tunnel = 1) {now timeOut : Timespec} (epoch : 0 < now.tvSec)
    (forward : 0 ≤ timeOut.tvSec)
    (armed : t.pmipTunnelSetTimer now (t.timers firstMag).remote timeOut = .ok t') :
    DynamicOk conf t' (left installed 1 tunnel) := by
  obtain ⟨isTunnel, _, device⟩ := inv.device_of_single single
  have index : t.pmipTunnelGetTimerIndex (t.timers firstMag).remote = some firstMag :=
    getTimerIndex_first (fun mag other => (inv.others mag other).2) (Or.inl rfl)
  have later := tsisset_tsadd epoch forward
  -- whichever way it is armed, the record has the same tunnel and a lifetime
  have timed : ∀ tq : TQueue TqElem, DynamicOk conf
      ({ t with tq := tq }.armTimer firstMag (tsadd now timeOut)) (left installed 1 tunnel) := by
    intro tq
    have timer : ({ t with tq := tq }.armTimer firstMag (tsadd now timeOut)).timers firstMag =
        { t.timers firstMag with lifetime := tsadd now timeOut } := by
      simp [armTimer, setTimer]
    refine {
      ok := inv.ok
      others := ?_
      home := ?_
      devices := ?_
      idle := ?_
      pending := ?_ }
    · intro mag other
      have unchanged : ({ t with tq := tq }.armTimer firstMag (tsadd now timeOut)).timers mag =
          t.timers mag := by simp [armTimer, setTimer, Function.update_of_ne other]
      rw [unchanged]
      exact inv.others mag other
    · rw [timer]
      exact inv.home
    · rw [timer]
      exact inv.devices
    · rw [timer]
      intro unset
      exact absurd (unset.symm.trans later) (by simp)
    · rw [timer]
      intro _
      exact isTunnel ▸ device
  unfold pmipTunnelSetTimer at armed
  dsimp only at armed
  rw [index] at armed
  cases set_ : tsisset (t.timers firstMag).lifetime with
  | false =>
      simp only [set_, Bool.false_eq_true, not_false_eq_true, if_true] at armed
      cases armed
      exact timed t.tq
  | true =>
      simp only [set_, not_true_eq_false, if_false] at armed
      split at armed
      · cases armed
        exact timed _
      · cases armed
        refine { inv with idle := ?_ }
        intro unset
        exact absurd (unset.symm.trans set_) (by simp)

/-- A device that is left after a deletion was there before, and is as it was
unless it is the one with the deleted index. -/
theorem device_before (inv : DynamicOk conf t installed) (tunnel : Int) {l r : In6Addr} {i u : Int}
    (found : (t.ctl.tunnelDel tunnel).1.device l r = some (i, u)) :
    ∃ v, t.ctl.device l r = some (i, v) ∧ (i = tunnel → v ≠ 1) := by
  obtain ⟨_, _, devices⟩ := TunnelCtl.tunnelDel_spec inv.ok tunnel
  rw [devices l r] at found
  cases was : t.ctl.device l r with
  | none =>
      rw [was] at found
      cases found
  | some pair =>
      obtain ⟨j, v⟩ := pair
      simp only [was] at found
      split at found
      · split at found
        · cases found
        · rename_i notLast
          cases found
          exact ⟨v, rfl, fun _ => notLast⟩
      · rename_i other
        cases found
        exact ⟨u, rfl, fun same => absurd same other⟩

/-- Deleting an index other than that of a device which waits for its deletion. -/
theorem deleted (inv : DynamicOk conf t installed) {tunnel : Int}
    (other : tsisset (t.timers firstMag).lifetime = true → (t.timers firstMag).tunnel ≠ tunnel) :
    DynamicOk conf { t with ctl := (t.ctl.tunnelDel tunnel).1 } installed := by
  obtain ⟨ok', _, devices⟩ := TunnelCtl.tunnelDel_spec inv.ok tunnel
  refine { inv with
    ok := ok'
    devices := ?_
    idle := ?_
    pending := ?_ }
  · intro l r i u found
    obtain ⟨v, before, _⟩ := inv.device_before tunnel found
    exact inv.devices l r i v before
  · intro unset u found
    obtain ⟨v, before, _⟩ := inv.device_before tunnel found
    exact inv.idle unset v before
  · intro set_
    have device := devices conf.ourAddress conf.lmaAddress
    rw [inv.pending set_] at device
    simpa only [if_neg (other set_)] using device

theorem del (inv : DynamicOk conf t installed) (tunnelling : conf.tunnelingEnabled = true)
    (dynamic : conf.dynamicTunnelingEnabled = true)
    (forward : 0 ≤ conf.maxDelayBeforeDynamicTunnelingDelete.tvSec) {now : Timespec}
    (epoch : 0 < now.tvSec) {tunnel result : Int}
    (deleted : t.pmipTunnelDel conf now tunnel = .ok (t', result)) :
    DynamicOk conf t' (left installed (t.ctl.tunnelGetusers tunnel) tunnel) := by
  simp only [pmipTunnelDel] at deleted
  rw [if_pos tunnelling] at deleted
  by_cases single : t.ctl.tunnelGetusers tunnel = 1
  · obtain ⟨isTunnel, positive, _⟩ := inv.device_of_single single
    have record : (List.finRange pmipMaxMags).find? (fun mag => (t.timers mag).tunnel = tunnel) =
        some firstMag := find_firstMag (by simpa using isTunnel.symm)
    rw [if_pos positive] at deleted
    simp only [dynamic, if_true, single, record] at deleted
    split at deleted
    · cases deleted
    · rename_i armed
      cases deleted
      rw [single]
      exact inv.armed single epoch forward armed
  · have same : left installed (t.ctl.tunnelGetusers tunnel) tunnel = installed := if_neg single
    rw [same]
    split at deleted
    · cases deleted
      apply inv.deleted
      intro set_ isTunnel
      have users := TunnelCtl.getusers_of_device inv.ok (inv.pending set_)
      exact single (isTunnel ▸ users)
    · cases deleted
      exact inv

theorem expired (inv : DynamicOk conf t installed) (tq : TQueue TqElem) (mag : Fin pmipMaxMags) :
    DynamicOk conf ({ t with tq := tq }.pmipTimerTunnelExpiredHandler mag) installed := by
  have timer : ({ t with tq := tq }.pmipTimerTunnelExpiredHandler mag).timers mag =
      { t.timers mag with lifetime := ⟨0, 0⟩ } := by
    simp [pmipTimerTunnelExpiredHandler, setTimer]
  have unchanged : ∀ other, other ≠ mag →
      ({ t with tq := tq }.pmipTimerTunnelExpiredHandler mag).timers other = t.timers other := by
    intro other different
    simp [pmipTimerTunnelExpiredHandler, setTimer, Function.update_of_ne different]
  by_cases first : mag = firstMag
  · -- the device goes, and nothing is on record any more
    subst first
    obtain ⟨ok', _, _⟩ := TunnelCtl.tunnelDel_spec inv.ok (t.timers firstMag).tunnel
    refine {
      ok := ok'
      others := ?_
      home := ?_
      devices := ?_
      idle := ?_
      pending := ?_ }
    · intro other different
      rw [unchanged other different]
      exact inv.others other different
    · rw [timer]
      exact inv.home
    · intro l r i u found
      obtain ⟨v, before, _⟩ := inv.device_before _ found
      rw [timer]
      exact inv.devices l r i v before
    · intro _ u found
      rw [timer] at found ⊢
      obtain ⟨v, before, notLast⟩ := inv.device_before _ found
      cases set_ : tsisset (t.timers firstMag).lifetime with
      | false => exact inv.idle set_ v before
      | true =>
          have single := before.symm.trans (inv.pending set_)
          exact absurd (Prod.mk.inj (Option.some.inj single)).2 (notLast rfl)
    · intro set_
      simp [timer, tsisset] at set_
  · -- a record that was never used has no device
    have same := unchanged firstMag (Ne.symm first)
    obtain ⟨free, _⟩ := inv.others mag first
    have deleted : DynamicOk conf { t with ctl := (t.ctl.tunnelDel (t.timers mag).tunnel).1 }
        installed := by
      apply inv.deleted
      intro set_ isTunnel
      obtain ⟨_, positive, _⟩ := inv.device_of_single
        (TunnelCtl.getusers_of_device inv.ok (inv.pending set_))
      rw [isTunnel, free] at positive
      omega
    refine {
      ok := deleted.ok
      others := ?_
      home := ?_
      devices := ?_
      idle := ?_
      pending := ?_ }
    · intro other different
      by_cases here : other = mag
      · rw [here, timer]
        exact inv.others mag first
      · rw [unchanged other here]
        exact inv.others other different
    · rw [same]
      exact deleted.home
    · rw [same]
      exact deleted.devices
    · rw [same]
      exact deleted.idle
    · rw [same]
      exact deleted.pending

end DynamicOk

/-- The tunnels of a gateway whose uplink routes are `installed`. -/
def TunnelsOk (conf : Conf) (t : Tunnels) (installed : Int → Bool) : Prop :=
  if conf.dynamicTunnelingEnabled then DynamicOk conf t installed else StaticOk conf t

namespace TunnelsOk

variable {conf : Conf} {t t' : Tunnels} {installed : Int → Bool}

theorem add (inv : TunnelsOk conf t installed) (tunnelling : conf.tunnelingEnabled = true)
    {env : TunnelEnv} (creates : conf.dynamicTunnelingEnabled = true → Creates t.ctl env)
    {link tunnel : Int}
    (added : t.pmipTunnelAdd conf env conf.ourAddress conf.lmaAddress link = .ok (t', tunnel)) :
    TunnelsOk conf t' (joined installed (t'.ctl.tunnelGetusers tunnel) tunnel) ∧
      joined installed (t'.ctl.tunnelGetusers tunnel) tunnel tunnel = true := by
  simp only [TunnelsOk] at inv ⊢
  cases mode : conf.dynamicTunnelingEnabled with
  | true =>
      rw [if_pos mode] at inv
      simp only [if_true]
      exact inv.add tunnelling mode (creates mode) added
  | false =>
      simp only [mode, Bool.false_eq_true, if_false] at inv ⊢
      obtain ⟨rfl, single⟩ := inv.add tunnelling mode added
      rw [single]
      exact ⟨inv, joined_single installed tunnel⟩

theorem del (inv : TunnelsOk conf t installed) (tunnelling : conf.tunnelingEnabled = true)
    (forward : 0 ≤ conf.maxDelayBeforeDynamicTunnelingDelete.tvSec) {now : Timespec}
    (epoch : 0 < now.tvSec) {tunnel result : Int}
    (deleted : t.pmipTunnelDel conf now tunnel = .ok (t', result)) :
    TunnelsOk conf t' (left installed (t.ctl.tunnelGetusers tunnel) tunnel) := by
  simp only [TunnelsOk] at inv ⊢
  cases mode : conf.dynamicTunnelingEnabled with
  | true =>
      rw [if_pos mode] at inv
      simp only [if_true]
      exact inv.del tunnelling mode forward epoch deleted
  | false =>
      simp only [mode, Bool.false_eq_true, if_false] at inv ⊢
      rw [StaticOk.del tunnelling mode deleted]
      exact inv

theorem expired (inv : TunnelsOk conf t installed) {mag : Fin pmipMaxMags}
    (queued : .tunnel mag ∈ t.tq.list) (tq : TQueue TqElem) :
    TunnelsOk conf ({ t with tq := tq }.pmipTimerTunnelExpiredHandler mag) installed := by
  simp only [TunnelsOk] at inv ⊢
  cases mode : conf.dynamicTunnelingEnabled with
  | true =>
      rw [if_pos mode] at inv
      simp only [if_true]
      exact inv.expired tq mag
  | false =>
      simp only [mode, Bool.false_eq_true, if_false] at inv
      exact absurd queued (inv.quiet mag)

end TunnelsOk

theorem tunnelsOk_init {conf : Conf} (tunnelling : conf.tunnelingEnabled = true)
    (specified : conf.dynamicTunnelingEnabled = false → conf.lmaAddress ≠ in6addrAny)
    {kernel : TunnelEnv}
    (creates : conf.dynamicTunnelingEnabled = false → Creates TunnelCtl.init kernel)
    {link : Int} {t : Tunnels} (started : pmipTunnelsInit conf kernel link = .ok t) :
    TunnelsOk conf t fun _ => false := by
  simp only [pmipTunnelsInit] at started
  simp only [TunnelsOk]
  cases mode : conf.dynamicTunnelingEnabled with
  | true =>
      simp only [mode, not_true_eq_false, and_false, if_false] at started
      cases started
      simp only [if_true]
      refine {
        ok := TunnelCtl.ok_init
        others := fun _ _ => ⟨rfl, rfl⟩
        home := Or.inr rfl
        devices := ?_
        idle := ?_
        pending := ?_ }
      · intro l r i u found
        simp [Tunnels.init, TunnelCtl.init, TunnelCtl.device] at found
      · intro _ u found
        simp [Tunnels.init, TunnelCtl.init, TunnelCtl.device] at found
      · intro set_
        simp [Tunnels.init, tsisset] at set_
  | false =>
      simp only [mode, tunnelling, Bool.false_eq_true, not_false_eq_true, and_self, if_true] at started
      simp only [Bool.false_eq_true, if_false]
      have lookup : Tunnels.init.pmipTunnelGetTimerIndex conf.lmaAddress = some firstMag :=
        getTimerIndex_first (fun _ _ => rfl) (Or.inr rfl)
      have other : ¬ (Tunnels.init.timers firstMag).remote = conf.lmaAddress :=
        fun same => specified mode same.symm
      obtain ⟨nodeOk, isMade, fresh⟩ := creates mode
      obtain ⟨index, made⟩ := Option.isSome_iff_exists.mp isMade
      obtain ⟨ok', device, _, _, _⟩ := TunnelCtl.tunnelAdd_spec TunnelCtl.ok_init made nodeOk
        (fresh index made) conf.magAddressEgress conf.lmaAddress link
      have single := TunnelCtl.getusers_of_device ok' device
      have free : isUnspecified (Tunnels.init.timers firstMag).remote = true := rfl
      simp only [pmipTunnelAdd] at started
      simp only [tunnelling, if_true, lookup, mode, Bool.false_eq_true, if_false, if_neg other,
        free] at started
      cases started
      have timer : (Tunnels.init.recordTunnel kernel firstMag conf.magAddressEgress conf.lmaAddress
          link).1.timers firstMag = { Tunnels.init.timers firstMag with
            tunnel := (TunnelCtl.init.tunnelAdd kernel conf.magAddressEgress conf.lmaAddress link).2
            remote := conf.lmaAddress } := by
        simp [recordTunnel, setTimer, Tunnels.init]
      have others : ∀ mag, mag ≠ firstMag → ((Tunnels.init.recordTunnel kernel firstMag
          conf.magAddressEgress conf.lmaAddress link).1.timers mag).remote = in6addrAny := by
        intro mag different
        simp [recordTunnel, setTimer, Tunnels.init, Function.update_of_ne different]
      constructor
      · refine ⟨firstMag, getTimerIndex_first others (Or.inl ?_), ?_, ?_⟩
        · rw [timer]
        · rw [timer]
        · rw [timer]
          exact single
      · intro mag
        exact List.not_mem_nil

namespace Daemon

/-! ## The gateway -/

/-- While a registered entry has a tunnel, the default route through it is
installed. -/
def UplinkKept (d : Daemon) : Prop :=
  ∀ bce ∈ d.entries, (d.heap bce).type = .pmip →
    uplinkInstalled d.log (d.heap bce).tunnel = true

structure UplinkOk (conf : Conf) (d : Daemon) : Prop where
  tunnels : TunnelsOk conf d.tun (uplinkInstalled d.log)
  kept : UplinkKept d

/-- The clock is past the epoch, and the end of a registration that needs a new
tunnel gets one. -/
def Supported (conf : Conf) (d : Daemon) : MagInput → Prop
  | .event info env =>
      0 < env.now.tvSec ∧ (conf.dynamicTunnelingEnabled = true → info.msgEvent = .hasPBA →
        Creates d.tun.ctl env.tunnel)
  | .fire env => 0 < env.now.tvSec

/-- A node that is deregistered through a tunnel with one user is the only one
registered through it. -/
def SparesUplink (conf : Conf) (d : Daemon) (input : MagInput) : Prop :=
  ∀ bce ∈ d.deregisters conf input,
    d.tun.ctl.tunnelGetusers (d.heap bce).tunnel = 1 →
      ∀ other ∈ d.entries, other ≠ bce → (d.heap other).type = .pmip →
        (d.heap other).tunnel ≠ (d.heap bce).tunnel

instance (conf : Conf) (d : Daemon) : (input : MagInput) → Decidable (d.Supported conf input)
  | .event _ _ => inferInstanceAs (Decidable (_ ∧ (_ → _ → _)))
  | .fire _ => inferInstanceAs (Decidable (_ < _))

instance (conf : Conf) (d : Daemon) (input : MagInput) : Decidable (d.SparesUplink conf input) :=
  inferInstanceAs (Decidable (∀ _, _ → _ → ∀ _, _ → _ → _ → _))

section Routes
variable {conf : Conf} {d d' : Daemon} {env : Env} {bce : Nat}

theorem uplinkInstalled_magUplinkAdd (d : Daemon) (bce : Nat) :
    uplinkInstalled (d.magUplinkAdd bce).log = joined (uplinkInstalled d.log)
      (d.tun.ctl.tunnelGetusers (d.heap bce).tunnel) (d.heap bce).tunnel := by
  unfold magUplinkAdd joined
  dsimp only
  split
  · funext tunnel
    by_cases same : tunnel = (d.heap bce).tunnel
    · simp [emit, uplinkInstalled, same]
    · have other : Effect.routeAdd (d.heap bce).tunnel .pmip in6addrAny 0 ≠
          .routeAdd tunnel .pmip in6addrAny 0 := by
        simpa using Ne.symm same
      simp [emit, uplinkInstalled, other, Function.update_of_ne same]
  · rfl

theorem uplinkInstalled_magUplinkDel (d : Daemon) (bce : Nat) :
    uplinkInstalled (d.magUplinkDel bce).log = left (uplinkInstalled d.log)
      (d.tun.ctl.tunnelGetusers (d.heap bce).tunnel) (d.heap bce).tunnel := by
  unfold magUplinkDel left
  dsimp only
  split
  · funext tunnel
    by_cases same : tunnel = (d.heap bce).tunnel
    · simp [emit, uplinkInstalled, same]
    · have other : Effect.routeDel (d.heap bce).tunnel .pmip in6addrAny 0 ≠
          .routeDel tunnel .pmip in6addrAny 0 := by
        simpa using Ne.symm same
      simp [emit, uplinkInstalled, other, Function.update_of_ne same]
  · rfl

theorem steady_pmipCacheAdd (conf : Conf) (d : Daemon) (env : Env) (bce : Nat) :
    Steady d (d.pmipCacheAdd conf env bce) := by
  have numbered : ∀ d : Daemon, Steady d (d.nextBid bce) := fun _ =>
    ⟨rfl, rfl, fun _ => Iff.rfl, rfl⟩
  have linked : ∀ d : Daemon, Steady d (d.pmipcacheInsert env bce).1 := by
    intro d
    simp only [pmipcacheInsert]
    split <;> exact ⟨rfl, rfl, fun _ => Iff.rfl, rfl⟩
  exact pmipCacheAdd_relates Steady Steady.trans numbered linked (fun d => steady_modify d bce)
    (fun d => steady_addTask d bce _ _ _) conf d

theorem tunnelsOk_steady (inv : TunnelsOk conf d.tun (uplinkInstalled d.log))
    (steady : Steady d d') : TunnelsOk conf d'.tun (uplinkInstalled d'.log) := by
  rw [steady.uplink]
  simp only [TunnelsOk] at inv ⊢
  cases mode : conf.dynamicTunnelingEnabled with
  | true =>
      rw [if_pos mode] at inv
      simp only [if_true]
      refine {
        ok := ?_
        others := ?_
        home := ?_
        devices := ?_
        idle := ?_
        pending := ?_ }
      · rw [steady.ctl]
        exact inv.ok
      · rw [steady.timers]
        exact inv.others
      · rw [steady.timers]
        exact inv.home
      · rw [steady.ctl, steady.timers]
        exact inv.devices
      · rw [steady.ctl, steady.timers]
        exact inv.idle
      · rw [steady.ctl, steady.timers]
        exact inv.pending
  | false =>
      simp only [mode, Bool.false_eq_true, if_false] at inv ⊢
      obtain ⟨mag, found, remote, users⟩ := inv.record
      refine ⟨⟨mag, ?_, ?_, ?_⟩, fun other queued => ?_⟩
      · simp only [pmipTunnelGetTimerIndex] at found ⊢
        rw [steady.timers]
        exact found
      · rw [steady.timers]
        exact remote
      · rw [steady.ctl, steady.timers]
        exact users
      · exact inv.quiet other ((steady.tasks other).mp queued)

theorem tunnelAdd_tunnels (inv : TunnelsOk conf d.tun (uplinkInstalled d.log))
    (tunnelling : conf.tunnelingEnabled = true)
    (creates : conf.dynamicTunnelingEnabled = true → Creates d.tun.ctl env.tunnel) {link : Int}
    (added : d.pmipTunnelAdd conf env bce conf.lmaAddress link = .ok d') :
    TunnelsOk conf d'.tun (uplinkInstalled (d'.magUplinkAdd bce).log) ∧
      uplinkInstalled (d'.magUplinkAdd bce).log (d'.heap bce).tunnel = true ∧
      ∀ tunnel, uplinkInstalled d.log tunnel = true →
        uplinkInstalled (d'.magUplinkAdd bce).log tunnel = true := by
  simp only [pmipTunnelAdd] at added
  split at added
  · cases added
  · rename_i tun tunnel opened
    have off : uplinkInstalled (.tunnelAdd conf.lmaAddress tunnel :: d.log) =
        uplinkInstalled d.log := rfl
    rw [uplinkInstalled_magUplinkAdd]
    cases added
    have isTunnel : ((({ d with tun := tun }.emit (.tunnelAdd conf.lmaAddress tunnel)).modify bce
        fun e => { e with tunnel := tunnel }).heap bce).tunnel = tunnel := by simp [modify]
    rw [isTunnel]
    obtain ⟨ok, routed⟩ := inv.add tunnelling creates opened
    refine ⟨?_, ?_, fun other before => ?_⟩
    · exact ok
    · exact routed
    · exact joined_of_installed before _ _

theorem magEndRegistration_tunnels (inv : TunnelsOk conf d.tun (uplinkInstalled d.log))
    (tunnelling : conf.tunnelingEnabled = true)
    (creates : conf.dynamicTunnelingEnabled = true → Creates d.tun.ctl env.tunnel) {iif : Int}
    (ended : d.magEndRegistration conf env bce iif = .ok d') :
    TunnelsOk conf d'.tun (uplinkInstalled d'.log) ∧
      uplinkInstalled d'.log (d'.heap bce).tunnel = true ∧
      ∀ tunnel, uplinkInstalled d.log tunnel = true → uplinkInstalled d'.log tunnel = true := by
  simp only [magEndRegistration] at ended
  obtain ⟨opened, added, done⟩ := bind_eq_ok.mp ended
  have began := steady_registered conf d env bce
  rw [← began.ctl] at creates
  obtain ⟨ok, routed, still⟩ := tunnelAdd_tunnels (tunnelsOk_steady inv began) tunnelling creates
    added
  have sameTun : (opened.magUplinkAdd bce).tun = opened.tun := by
    unfold magUplinkAdd
    dsimp only
    split <;> rfl
  rw [← sameTun] at ok
  have steady : Steady (opened.magUplinkAdd bce) d' := by
    cases done
    exact ((steady_magKickoffRa _ bce).trans (steady_modify _ bce _)).trans
      (steady_magSetupRoute conf _ _ _)
  have frame : Frame PmipEntry.binding bce opened d' := by
    cases done
    exact (((frame_magUplinkAdd opened bce).trans (frame_magKickoffRa _ bce)).trans
      (frame_getMnAddr _ bce)).trans (frame_magSetupRoute conf _ bce _ _)
  refine ⟨tunnelsOk_steady ok steady, ?_, fun tunnel before => ?_⟩
  · rw [steady.uplink, frame.tunnel]
    exact routed
  · rw [steady.uplink]
    exact still tunnel (began.uplink ▸ before)

theorem magUnroute_entry (conf : Conf) (d : Daemon) (bce : Nat) :
    ((d.magUnroute conf bce).heap bce).type = .noEntry ∧
      ((d.magUnroute conf bce).heap bce).tunnel = (d.heap bce).tunnel := by
  unfold magUnroute
  dsimp only
  have kept := (frame_magRemoveRoute conf ((d.modify bce fun e =>
    { e with type := .noEntry }).getMnAddr bce) bce
    (((d.modify bce fun e => { e with type := .noEntry }).getMnAddr bce).heap bce).mnAddr
    (((d.modify bce fun e => { e with type := .noEntry }).getMnAddr bce).heap bce).link)
  rw [kept.type, kept.tunnel]
  simp [getMnAddr, modify]

/-- A deregistration removes no route but that of a tunnel with one user. -/
theorem magDereg_tunnels (inv : TunnelsOk conf d.tun (uplinkInstalled d.log))
    (tunnelling : conf.tunnelingEnabled = true)
    (forward : 0 ≤ conf.maxDelayBeforeDynamicTunnelingDelete.tvSec) (epoch : 0 < env.now.tvSec)
    (dereg : d.magDereg conf env bce true = .ok d') :
    TunnelsOk conf d'.tun (uplinkInstalled d'.log) ∧
      uplinkInstalled d'.log = left (uplinkInstalled d.log)
        (d.tun.ctl.tunnelGetusers (d.heap bce).tunnel) (d.heap bce).tunnel ∧
      (d'.heap bce).type = .noEntry := by
  simp only [magDereg] at dereg
  obtain ⟨closed, deleted, done⟩ := bind_eq_ok.mp dereg
  obtain ⟨isGone, isTunnel⟩ := magUnroute_entry conf d bce
  have steady := steady_magUnroute conf d bce
  have ok := tunnelsOk_steady inv steady
  have sent : Steady closed d' := by
    cases done
    exact steady_mhSendPbu closed env bce _ _ _
  have typed : (d'.heap bce).type = .noEntry := by
    have removed := frame_magUplinkDel (d.magUnroute conf bce) bce
    have untunnelled := (frame_tunnelDel PmipEntry.binding ((d.magUnroute conf bce).magUplinkDel bce)
      bce conf env).of_ok deleted
    have last : Frame PmipEntry.binding bce closed d' := by
      cases done
      exact frame_mhSendPbu closed bce env _ _ _
    rw [last.type, untunnelled.type, removed.type]
    exact isGone
  have routes := uplinkInstalled_magUplinkDel (d.magUnroute conf bce) bce
  rw [isTunnel, steady.uplink, steady.ctl] at routes
  have sameTun : ((d.magUnroute conf bce).magUplinkDel bce).tun = (d.magUnroute conf bce).tun := by
    unfold magUplinkDel
    dsimp only
    split <;> rfl
  have sameHeap : ((d.magUnroute conf bce).magUplinkDel bce).heap =
      (d.magUnroute conf bce).heap := by
    unfold magUplinkDel
    dsimp only
    split <;> rfl
  simp only [pmipTunnelDel] at deleted
  simp only [sameTun, sameHeap, isTunnel] at deleted
  split at deleted
  · cases deleted
  · rename_i tun result released
    have shut := ok.del tunnelling forward epoch released
    rw [steady.uplink, steady.ctl] at shut
    cases deleted
    have off : uplinkInstalled (.tunnelDel ((d.magUnroute conf bce).heap bce).mnServMagAddr
        (d.heap bce).tunnel :: ((d.magUnroute conf bce).magUplinkDel bce).log) =
        uplinkInstalled ((d.magUnroute conf bce).magUplinkDel bce).log := rfl
    have final : uplinkInstalled d'.log = left (uplinkInstalled d.log)
        (d.tun.ctl.tunnelGetusers (d.heap bce).tunnel) (d.heap bce).tunnel :=
      sent.uplink.trans (off.trans routes)
    refine ⟨?_, final, typed⟩
    apply tunnelsOk_steady ?_ sent
    rw [← sent.uplink, final]
    exact shut

end Routes

namespace UplinkOk

variable {conf : Conf} {d d' : Daemon}

theorem steady (ok : UplinkOk conf d) (steady : Steady d d')
    (same : ∀ bce ∈ d'.entries, (d'.heap bce).type = .pmip →
      bce ∈ d.entries ∧ (d.heap bce).type = .pmip ∧ (d'.heap bce).tunnel = (d.heap bce).tunnel) :
    UplinkOk conf d' where
  tunnels := tunnelsOk_steady ok.tunnels steady
  kept := by
    intro bce member isPmip
    obtain ⟨before, wasPmip, tunnel⟩ := same bce member isPmip
    rw [steady.uplink, tunnel]
    exact ok.kept bce before wasPmip

theorem frame (ok : UplinkOk conf d) {bce : Nat} (frame : Frame PmipEntry.binding bce d d')
    (steady : Steady d d') : UplinkOk conf d' := by
  apply ok.steady steady
  intro p member isPmip
  rw [frame.entries] at member
  by_cases here : p = bce
  · rw [here] at member isPmip ⊢
    exact ⟨member, frame.type ▸ isPmip, frame.tunnel⟩
  · rw [frame.others p here] at isPmip ⊢
    exact ⟨member, isPmip, rfl⟩

theorem delete (ok : UplinkOk conf d) (bce : Nat) : UplinkOk conf (d.pmipBceDelete bce) := by
  have stopped := steady_delTask d bce
  have deleted : Steady d (d.pmipBceDelete bce) := { stopped with }
  apply ok.steady deleted
  intro p member isPmip
  exact ⟨delete_entries_subset d bce p member, isPmip, rfl⟩

theorem registering (ok : UplinkOk conf d) {env : Env} {info : MsgInfo} {map : List MnidHnp}
    {pfx : In6Addr} {nai : Nai} :
    UplinkOk conf ((d.registering conf env info map pfx nai).pmipCacheAdd conf env d.top) := by
  have steady := (steady_registering conf d env info map pfx nai).trans
    (steady_pmipCacheAdd conf _ env d.top)
  apply ok.steady steady
  intro p member isPmip
  have different : p ≠ d.top := by
    intro same
    subst same
    rw [registered_type] at isPmip
    cases isPmip
  have before := (registered_mem conf d env info map pfx nai member).resolve_left different
  rw [registered_heap conf d env info map pfx nai different] at isPmip ⊢
  exact ⟨before, isPmip, rfl⟩

theorem attached (ok : UplinkOk conf d) (tunnelling : conf.tunnelingEnabled = true) {env : Env}
    (creates : conf.dynamicTunnelingEnabled = true → Creates d.tun.ctl env.tunnel) {bce : Nat}
    {iif : Int} (ended : d.magEndRegistration conf env bce iif = .ok d') : UplinkOk conf d' := by
  obtain ⟨tunnels, routed, still⟩ := magEndRegistration_tunnels ok.tunnels tunnelling creates ended
  have frame := (frame_magEndRegistration conf d env bce iif).of_ok ended
  refine ⟨tunnels, ?_⟩
  intro p member isPmip
  by_cases here : p = bce
  · rw [here]
    exact routed
  · rw [frame.others p here] at isPmip ⊢
    exact still _ (ok.kept p (frame.entries ▸ member) isPmip)

theorem detached (ok : UplinkOk conf d) (tunnelling : conf.tunnelingEnabled = true)
    (forward : 0 ≤ conf.maxDelayBeforeDynamicTunnelingDelete.tvSec) {env : Env}
    (epoch : 0 < env.now.tvSec) {bce : Nat}
    (lone : d.tun.ctl.tunnelGetusers (d.heap bce).tunnel = 1 →
      ∀ other ∈ d.entries, other ≠ bce → (d.heap other).type = .pmip →
        (d.heap other).tunnel ≠ (d.heap bce).tunnel)
    (dereg : d.magDereg conf env bce true = .ok d') : UplinkOk conf d' := by
  obtain ⟨tunnels, routes, gone⟩ := magDereg_tunnels ok.tunnels tunnelling forward epoch dereg
  have frame := (frame_magDereg conf d env bce true).of_ok dereg
  refine ⟨tunnels, ?_⟩
  intro p member isPmip
  have different : p ≠ bce := by
    intro same
    subst same
    rw [gone] at isPmip
    cases isPmip
  rw [frame.entries] at member
  rw [frame.others p different] at isPmip ⊢
  have before := ok.kept p member isPmip
  rw [routes]
  simp only [left]
  split
  · rename_i single
    rw [Function.update_of_ne (lone single p member different isPmip)]
    exact before
  · exact before

end UplinkOk

theorem magStep_uplink {conf : Conf} (isMag : conf.mip6Entity = .mag)
    (tunnelling : conf.tunnelingEnabled = true)
    (forward : 0 ≤ conf.maxDelayBeforeDynamicTunnelingDelete.tvSec) (d : Daemon)
    (input : MagInput) (d' : Daemon) (ok : UplinkOk conf d)
    (meets : d.Supported conf input ∧ d.SparesUplink conf input)
    (taken : d.magStep conf input = .ok d') : UplinkOk conf d' := by
  obtain ⟨supported, spares⟩ := meets
  have touched : ∀ used, UplinkOk conf (d.touch used) := fun used => ⟨ok.tunnels, ok.kept⟩
  cases magStep_move isMag taken with
  | looked used => exact touched used
  | leaked used =>
      have steady : Steady d ((d.touch used).allocated .temp) :=
        ⟨rfl, rfl, fun _ => Iff.rfl, rfl⟩
      apply ok.steady steady
      intro p member isPmip
      by_cases here : p = d.top
      · subst here
        simp [allocated, touch, PmipEntry.blank] at isPmip
      · have same : ((d.touch used).allocated .temp).heap p = d.heap p := by
          simp [allocated, touch, Function.update_of_ne here]
        rw [same] at isPmip ⊢
        exact ⟨member, isPmip, rfl⟩
  | registered used missing starts answer => exact (touched used).registering
  | worked known work => exact ok.frame work.frame work.steady
  | attached event found wasTemp work ended =>
      apply (ok.frame work.frame work.steady).attached tunnelling ?_ ended
      intro dynamic
      rw [work.steady.ctl]
      exact supported.2 dynamic event
  | @detached _ bce start mid known asked work dereg =>
      have epoch : 0 < input.env.now.tvSec := by
        cases input with
        | event info env => exact supported.1
        | fire env => exact supported
      apply UplinkOk.delete
      apply (ok.frame work.frame work.steady).detached tunnelling forward epoch ?_ dereg
      rw [work.steady.ctl, work.frame.tunnel]
      intro single other member different isPmip
      rw [work.frame.entries] at member
      rw [work.frame.others other different] at isPmip ⊢
      exact spares bce asked single other member different isPmip
  | @dropped _ bce start known spent work => exact (ok.frame work.frame work.steady).delete bce
  | tunnelExpired queued => exact ⟨ok.tunnels.expired queued _, ok.kept⟩

/-- In every run in which no node leaves through a tunnel with one user that
another registered node has, and in which the tunnels are made, the default
route through the tunnel of every registered node is installed. -/
theorem mag_uplink_kept (conf : Conf) (isMag : conf.mip6Entity = .mag)
    (tunnelling : conf.tunnelingEnabled = true)
    (specified : conf.dynamicTunnelingEnabled = false → conf.lmaAddress ≠ in6addrAny)
    (forward : 0 ≤ conf.maxDelayBeforeDynamicTunnelingDelete.tvSec) (kernel : TunnelEnv)
    (creates : conf.dynamicTunnelingEnabled = false → Creates TunnelCtl.init kernel) (link : Int)
    (tun : Tunnels) (started : pmipTunnelsInit conf kernel link = .ok tun) (hnp : List MnidHnp)
    (inputs : List MagInput)
    (meets : Meets (magStep conf) (fun d input => d.Supported conf input ∧ d.SparesUplink conf input)
      (init tun hnp) inputs)
    (final : Daemon) (finished : run (magStep conf) (init tun hnp) inputs = .ok final) :
    UplinkKept final := by
  have start : UplinkOk conf (init tun hnp) :=
    ⟨tunnelsOk_init tunnelling specified creates started, by simp [UplinkKept, entries, init]⟩
  exact (run_invariant (magStep_uplink isMag tunnelling forward) start meets finished).kept

def nodeIid (n : UInt8) : In6Addr := ⟨[0, 0, 0, 0, 0, 0, 0, 0, 0, 0, 0, 0, 0, 0, 0, n], rfl⟩

def nodeNai (n : UInt8) : Nai := ⟨n :: List.replicate 62 0, rfl⟩

def twoNodes : List MnidHnp :=
  [⟨in6addrAny, eui64ToEui48 (nodeIid 1), nodeNai 1⟩,
    ⟨in6addrAny, eui64ToEui48 (nodeIid 2), nodeNai 2⟩]

/-- Node ::n is seen, and its update, the one with this sequence number, is
acknowledged. -/
def joins (n : UInt8) (seqno : UInt16) (ifindex : Int) : List MagInput :=
  [.event { MsgInfo.zero with
      msgEvent := .hasWLCCP
      mnIid := nodeIid n
      mnNai := nodeNai n } (Env.ample ⟨100, 0⟩ ifindex),
    .event { MsgInfo.zero with
      msgEvent := .hasPBA
      dst := in6addrLoopback
      mnIid := nodeIid n
      mnNai := nodeNai n
      seqno := seqno
      lifetime := ⟨8, 0⟩
      timestamp := ⟨0, 6553600⟩ } (Env.ample ⟨100, 0⟩ ifindex)]

def leaves (n : UInt8) : MagInput :=
  .event { MsgInfo.zero with
    msgEvent := .hasDEREG
    mnIid := nodeIid n
    mnNai := nodeNai n } (Env.ample ⟨110, 0⟩ 12)

/-- Two nodes share a dynamic tunnel and one of them leaves. -/
theorem mag_uplink_kept_shared :
    ∃ final, run (magStep (confDynamic .mag)) (init Tunnels.init twoNodes)
        (joins 1 0 10 ++ joins 2 1 11 ++ [leaves 1]) = .ok final ∧
      final.entries = [1] ∧ (final.heap 1).type = .pmip ∧ (final.heap 1).tunnel = 10 ∧
      UplinkKept final := by
  refine ⟨_, rfl, by decide +kernel, by decide +kernel, by decide +kernel, ?_⟩
  exact mag_uplink_kept (confDynamic .mag) rfl rfl (by decide) (by decide) ⟨none, false⟩ (by decide)
    0 Tunnels.init rfl twoNodes (joins 1 0 10 ++ joins 2 1 11 ++ [leaves 1])
    (by decide +kernel) _ rfl

/-- Two nodes share the static tunnel and one of them leaves: the route goes
with it. -/
theorem mag_uplink_lost :
    ¬ ∀ (tun : Tunnels), pmipTunnelsInit { confDefault .mag with tunnelingEnabled := true }
        ⟨some 10, true⟩ 0 = .ok tun →
      ∀ (inputs : List MagInput) (final : Daemon),
        run (magStep { confDefault .mag with tunnelingEnabled := true }) (init tun twoNodes)
          inputs = .ok final → UplinkKept final := by
  intro claimed
  have kept := claimed _ rfl (joins 1 0 11 ++ joins 2 1 12 ++ [leaves 1]) _ rfl 1 (by decide +kernel)
    (by decide +kernel)
  revert kept
  decide +kernel

end Daemon

end OaiPmip
