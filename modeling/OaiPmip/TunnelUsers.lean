import OaiPmip.Lib.Runs
import OaiPmip.PmipTunnel

/-!
# Counting the users of a dynamic tunnel

Any interleaving of `pmip_tunnel_add`, `pmip_tunnel_del` of an index that an
earlier addition returned, and the expiry task.  `net` counts, for every
remote end, the additions that are not yet undone.  The count of the code is
split between `mip6_tnl.users` and the timer record; `Counted` says how the
two bound `net`.
-/

set_option autoImplicit false

namespace OaiPmip.TunnelUsers

open OaiPmip.Runs OaiPmip.TunnelCtl OaiPmip.Tunnels

structure TunnelRun where
  tunnels : Tunnels
  net : In6Addr → Int
  returned : List (Int × In6Addr)
  lastIndex : Option Int

inductive TunnelCall where
  | add (remote : In6Addr) (link : Int) (env : TunnelEnv)
  | del (tunnel : Int) (now : Timespec)
  | fire (now : Timespec)

def TunnelRun.init : TunnelRun := ⟨Tunnels.init, fun _ => 0, [], none⟩

def tunnelStep (conf : Conf) (loc : In6Addr) (s : TunnelRun) :
    TunnelCall → Except Crash TunnelRun
  | .add remote link env =>
      match s.tunnels.pmipTunnelAdd conf env loc remote link with
      | .error crash => .error crash
      | .ok (t, index) =>
          .ok {
            tunnels := t
            net := Function.update s.net remote (s.net remote + 1)
            returned := (index, remote) :: s.returned
            lastIndex := some index }
  | .del tunnel now =>
      match s.tunnels.pmipTunnelDel conf now tunnel with
      | .error crash => .error crash
      | .ok (t, _) =>
          .ok { s with
            tunnels := t
            net := fun remote =>
              if (tunnel, remote) ∈ s.returned then s.net remote - 1 else s.net remote
            lastIndex := none }
  | .fire now =>
      match s.tunnels.tq.runner now with
      | none => .ok { s with lastIndex := none }
      | some (.bce _, tq) =>
          .ok { s with tunnels := { s.tunnels with tq := tq }, lastIndex := none }
      | some (.tunnel mag, tq) =>
          .ok { s with
            tunnels := { s.tunnels with tq := tq }.pmipTimerTunnelExpiredHandler mag
            lastIndex := none }

/-- What the calls rely on: a new tunnel device is created under a new index
for one of the given remote ends, only returned indices are deleted, and the
clock is past the epoch. -/
def Supported (remotes : List In6Addr) (s : TunnelRun) : TunnelCall → Prop
  | .add remote _ env =>
      remote ∈ remotes ∧ env.nodeAlloc = true ∧ env.ifindex.isSome ∧
        ∀ index ∈ env.ifindex, s.tunnels.ctl.Fresh index
  | .del tunnel now => tunnel ∈ s.returned.map Prod.fst ∧ 0 < now.tvSec
  | .fire _ => True

instance (remotes : List In6Addr) (s : TunnelRun) :
    (c : TunnelCall) → Decidable (Supported remotes s c)
  | .add remote _ env =>
      inferInstanceAs (Decidable (remote ∈ remotes ∧ env.nodeAlloc = true ∧ env.ifindex.isSome ∧
        ∀ index ∈ env.ifindex, s.tunnels.ctl.Fresh index))
  | .del tunnel now =>
      inferInstanceAs (Decidable (tunnel ∈ s.returned.map Prod.fst ∧ 0 < now.tvSec))
  | .fire _ => .isTrue trivial

/-- No addition for a remote end that still has users while the record of an
earlier deletion is set. -/
def NoLostUser (s : TunnelRun) : TunnelCall → Prop
  | .add remote _ _ =>
      remote ≠ in6addrAny ∧
        ∀ mag, (s.tunnels.timers mag).remote = remote →
          tsisset (s.tunnels.timers mag).lifetime = true → s.net remote ≤ 0
  | _ => True

instance (s : TunnelRun) : (c : TunnelCall) → Decidable (NoLostUser s c)
  | .add remote _ _ =>
      inferInstanceAs (Decidable (remote ≠ in6addrAny ∧
        ∀ mag, (s.tunnels.timers mag).remote = remote →
          tsisset (s.tunnels.timers mag).lifetime = true → s.net remote ≤ 0))
  | .del _ _ => .isTrue trivial
  | .fire _ => .isTrue trivial

/-- A remote end with users has its tunnel and no pending deletion of it, and
the index that an addition has just returned names a tunnel. -/
def TunnelsKept (loc : In6Addr) (s : TunnelRun) : Prop :=
  (∀ remote, 0 < s.net remote → ∃ index users,
    s.tunnels.ctl.device loc remote = some (index, users) ∧ 1 ≤ users ∧
      ∀ mag, .tunnel mag ∈ s.tunnels.tq.list → (s.tunnels.timers mag).tunnel ≠ index) ∧
  ∀ index, s.lastIndex = some index → ∃ remote users,
    s.tunnels.ctl.device loc remote = some (index, users)

def usersOf (c : TunnelCtl) (loc remote : In6Addr) : Int :=
  match c.device loc remote with
  | some (_, users) => users
  | none => 0

/-- A record in use: its index was given to its remote end; with no deletion
recorded the users bound `net`; with one recorded the tunnel has one user,
which is gone once the task is queued. -/
structure RecordCounted (loc : In6Addr) (t : Tunnels) (net : In6Addr → Int)
    (mag : Fin pmipMaxMags) : Prop where
  issued : t.ctl.Issued (t.timers mag).tunnel (t.timers mag).remote
  idle : tsisset (t.timers mag).lifetime = false →
    .tunnel mag ∉ t.tq.list ∧ net (t.timers mag).remote ≤ usersOf t.ctl loc (t.timers mag).remote
  pending : tsisset (t.timers mag).lifetime = true →
    t.ctl.device loc (t.timers mag).remote = some ((t.timers mag).tunnel, 1) ∧
      net (t.timers mag).remote ≤ 1 ∧
      (.tunnel mag ∈ t.tq.list → net (t.timers mag).remote ≤ 0)

structure Counted (loc : In6Addr) (remotes : List In6Addr) (t : Tunnels) (net : In6Addr → Int) :
    Prop where
  ok : t.ctl.Ok
  known : ∀ mag, (t.timers mag).remote ≠ in6addrAny → (t.timers mag).remote ∈ remotes
  distinct : ∀ mag mag', (t.timers mag).remote ≠ in6addrAny →
    (t.timers mag).remote = (t.timers mag').remote → mag = mag'
  free : ∀ mag, (t.timers mag).remote = in6addrAny →
    tsisset (t.timers mag).lifetime = false ∧ (t.timers mag).tunnel = 0 ∧
      .tunnel mag ∉ t.tq.list
  recorded : ∀ l r i u, t.ctl.device l r = some (i, u) →
    l = loc ∧ r ≠ in6addrAny ∧ ∃ mag, (t.timers mag).remote = r ∧ (t.timers mag).tunnel = i
  counted : ∀ mag, (t.timers mag).remote ≠ in6addrAny → RecordCounted loc t net mag
  unknown : ∀ r, (r = in6addrAny ∨ ∀ mag, (t.timers mag).remote ≠ r) → net r ≤ 0

theorem counted_init (loc : In6Addr) (remotes : List In6Addr) :
    Counted loc remotes Tunnels.init fun _ => 0 where
  ok := ok_init
  known := fun mag used => absurd rfl used
  distinct := fun mag _ used => absurd rfl used
  free := fun mag _ => ⟨rfl, rfl, by simp [Tunnels.init, TQueue.empty]⟩
  recorded := by
    intro l r i u found
    simp [Tunnels.init, TunnelCtl.init, device] at found
  counted := fun mag used => absurd rfl used
  unknown := fun _ _ => le_refl _

theorem getTimerIndex_of_remote {loc : In6Addr} {remotes : List In6Addr} {t : Tunnels}
    {net : In6Addr → Int} (inv : Counted loc remotes t net) {mag : Fin pmipMaxMags}
    (used : (t.timers mag).remote ≠ in6addrAny) :
    t.pmipTunnelGetTimerIndex (t.timers mag).remote = some mag := by
  simp only [pmipTunnelGetTimerIndex]
  cases found : (List.finRange pmipMaxMags).find? fun other =>
      (t.timers other).remote = (t.timers mag).remote with
  | none =>
      have missing := List.find?_eq_none.mp found mag (List.mem_finRange mag)
      simp at missing
  | some other =>
      have same : (t.timers other).remote = (t.timers mag).remote := by
        simpa using List.find?_some found
      rw [inv.distinct mag other used same.symm]

theorem exists_free {loc : In6Addr} {remotes : List In6Addr} {t : Tunnels}
    {net : In6Addr → Int} (inv : Counted loc remotes t net)
    (few : remotes.length ≤ pmipMaxMags) {r : In6Addr} (member : r ∈ remotes)
    (new : ∀ mag, (t.timers mag).remote ≠ r) : ∃ mag, (t.timers mag).remote = in6addrAny := by
  by_contra full
  have used : ∀ mag, (t.timers mag).remote ≠ in6addrAny := fun mag free => full ⟨mag, free⟩
  have nodup : ((List.finRange pmipMaxMags).map fun mag => (t.timers mag).remote).Nodup := by
    refine List.Nodup.map (fun mag mag' same => ?_) (List.nodup_finRange pmipMaxMags)
    exact inv.distinct mag mag' (used mag) same
  have inside : ((List.finRange pmipMaxMags).map fun mag => (t.timers mag).remote) ⊆
      remotes.erase r := by
    intro remote isRemote
    obtain ⟨mag, _, rfl⟩ := List.mem_map.mp isRemote
    exact (List.mem_erase_of_ne (new mag)).mpr (inv.known mag (used mag))
  have bound := (List.subperm_of_subset nodup inside).length_le
  rw [List.length_map, List.length_finRange, List.length_erase_of_mem member] at bound
  have positive := List.length_pos_of_mem member
  omega

theorem getTimerIndex_new {loc : In6Addr} {remotes : List In6Addr} {t : Tunnels}
    {net : In6Addr → Int} (inv : Counted loc remotes t net)
    (few : remotes.length ≤ pmipMaxMags) {r : In6Addr} (member : r ∈ remotes)
    (new : ∀ mag, (t.timers mag).remote ≠ r) :
    ∃ mag, t.pmipTunnelGetTimerIndex r = some mag ∧ (t.timers mag).remote = in6addrAny := by
  obtain ⟨spare, isFree⟩ := exists_free inv few member new
  have none_ : (List.finRange pmipMaxMags).find? (fun mag => (t.timers mag).remote = r) = none :=
    List.find?_eq_none.mpr fun mag _ => by simpa using new mag
  simp only [pmipTunnelGetTimerIndex]
  rw [none_]
  cases found : (List.finRange pmipMaxMags).find? fun mag =>
      isUnspecified (t.timers mag).remote with
  | none =>
      have missing := List.find?_eq_none.mp found spare (List.mem_finRange spare)
      simp [isUnspecified, isFree] at missing
  | some mag =>
      have matched := List.find?_some found
      exact ⟨mag, rfl, by simpa [isUnspecified] using matched⟩

/-! ## One call -/

/-- A record that a call does not touch keeps its count, also when its remote
end loses users. -/
theorem recordCounted_frame {loc : In6Addr} {t t' : Tunnels} {net net' : In6Addr → Int}
    {mag : Fin pmipMaxMags} (counted : RecordCounted loc t net mag)
    (timer : t'.timers mag = t.timers mag)
    (sameDevice : t'.ctl.device loc (t.timers mag).remote = t.ctl.device loc (t.timers mag).remote)
    (queued : .tunnel mag ∈ t'.tq.list → .tunnel mag ∈ t.tq.list)
    (fewer : net' (t.timers mag).remote ≤ net (t.timers mag).remote)
    (issued : ∀ i r, t.ctl.Issued i r → t'.ctl.Issued i r) : RecordCounted loc t' net' mag where
  issued := by
    rw [timer]
    exact issued _ _ counted.issued
  idle := by
    rw [timer]
    intro unset
    obtain ⟨notQueued, bound⟩ := counted.idle unset
    refine ⟨fun member => notQueued (queued member), fewer.trans ?_⟩
    simpa only [usersOf, sameDevice] using bound
  pending := by
    rw [timer]
    intro set_
    obtain ⟨one, bound, gone⟩ := counted.pending set_
    exact ⟨sameDevice.trans one, fewer.trans bound, fun member =>
      fewer.trans (gone (queued member))⟩

section Calls
variable {conf : Conf} {loc : In6Addr} {remotes : List In6Addr} {t : Tunnels}
  {net : In6Addr → Int}

section Recording
variable {mag : Fin pmipMaxMags} {r : In6Addr}
  (record : (t.timers mag).remote = r ∨
    (t.timers mag).remote = in6addrAny ∧ ∀ other, (t.timers other).remote ≠ r)
include record

theorem record_alone (inv : Counted loc remotes t net) (specified : r ≠ in6addrAny) :
    ∀ other, other ≠ mag → (t.timers other).remote ≠ r := by
  intro other different same
  rcases record with here | ⟨_, new⟩
  · exact different (inv.distinct other mag (same ▸ specified) (same.trans here.symm))
  · exact new other same

theorem record_notQueued (inv : Counted loc remotes t net) (specified : r ≠ in6addrAny)
    (unset : tsisset (t.timers mag).lifetime = false) : .tunnel mag ∉ t.tq.list := by
  rcases record with same | ⟨free, _⟩
  · exact ((inv.counted mag (same ▸ specified)).idle unset).1
  · exact (inv.free mag free).2.2

theorem record_bound (inv : Counted loc remotes t net) (specified : r ≠ in6addrAny)
    (unset : tsisset (t.timers mag).lifetime = false) : net r ≤ usersOf t.ctl loc r := by
  rcases record with same | ⟨_, new⟩
  · have idle := ((inv.counted mag (same ▸ specified)).idle unset).2
    rwa [same] at idle
  · have none_ : t.ctl.device loc r = none := by
      cases found : t.ctl.device loc r with
      | none => rfl
      | some v =>
          obtain ⟨_, _, other, same, _⟩ := inv.recorded loc r v.1 v.2 found
          exact absurd same (new other)
    simpa [usersOf, none_] using inv.unknown r (Or.inr new)

/-- The other remote ends keep their records when `mag` is given to `r`. -/
theorem record_others (timer : TunnelTimer) {r' : In6Addr} (different : r' ≠ r)
    (isSpecified : r' ≠ in6addrAny) {other : Fin pmipMaxMags}
    (same : (t.timers other).remote = r') :
    Function.update t.timers mag timer other = t.timers other := by
  apply Function.update_of_ne
  intro atMag
  subst atMag
  rcases record with atRecord | ⟨free, _⟩
  · exact different (same.symm.trans atRecord)
  · exact isSpecified (same.symm.trans free)

end Recording

/-- No two records are for one remote end after `mag` is given to an end that has
no other record. -/
theorem distinct_update (inv : Counted loc remotes t net) {mag : Fin pmipMaxMags}
    {timer : TunnelTimer}
    (alone : ∀ other, other ≠ mag → (t.timers other).remote ≠ timer.remote)
    (first second : Fin pmipMaxMags)
    (used : (Function.update t.timers mag timer first).remote ≠ in6addrAny)
    (same : (Function.update t.timers mag timer first).remote =
      (Function.update t.timers mag timer second).remote) : first = second := by
  by_cases atFirst : first = mag
  · by_cases atSecond : second = mag
    · rw [atFirst, atSecond]
    · subst atFirst
      simp only [Function.update_self, Function.update_of_ne atSecond] at same
      exact absurd same.symm (alone second atSecond)
  · by_cases atSecond : second = mag
    · subst atSecond
      simp only [Function.update_self, Function.update_of_ne atFirst] at same
      exact absurd same (alone first atFirst)
    · simp only [Function.update_of_ne atFirst, Function.update_of_ne atSecond] at used same
      exact inv.distinct first second used same

theorem usersOf_joined {c c' : TunnelCtl} {r : In6Addr} {index : Int}
    (here : c'.device loc r = some (index,
      match c.device loc r with
      | some (_, u) => u + 1
      | none => 1)) : usersOf c' loc r = usersOf c loc r + 1 := by
  simp only [usersOf, here]
  cases c.device loc r with
  | none => rfl
  | some v => rfl

/-- Creating or joining a tunnel through record `mag`, which is the record of
the remote end or a free one. -/
theorem recordTunnel_counted (inv : Counted loc remotes t net) {mag : Fin pmipMaxMags}
    {r : In6Addr} (known : r ∈ remotes) (specified : r ≠ in6addrAny)
    (record : (t.timers mag).remote = r ∨
      (t.timers mag).remote = in6addrAny ∧ ∀ other, (t.timers other).remote ≠ r)
    (unset : tsisset (t.timers mag).lifetime = false) {env : TunnelEnv} {i : Int}
    (created : env.ifindex = some i) (allocated : env.nodeAlloc = true)
    (fresh : t.ctl.Fresh i) (link : Int) :
    Counted loc remotes (t.recordTunnel env mag loc r link).1
        (Function.update net r (net r + 1)) ∧
      ∃ u, (t.recordTunnel env mag loc r link).1.ctl.device loc r =
        some ((t.recordTunnel env mag loc r link).2, u) := by
  obtain ⟨ok', here, joined, others, issued⟩ :=
    tunnelAdd_spec inv.ok created allocated fresh loc r link
  set ctl := (t.ctl.tunnelAdd env loc r link).1 with ctlDef
  set index := (t.ctl.tunnelAdd env loc r link).2 with indexDef
  let timer : TunnelTimer := ⟨(t.timers mag).lifetime, index, r⟩
  have result : t.recordTunnel env mag loc r link =
      (⟨t.tq, Function.update t.timers mag timer, ctl⟩, index) := rfl
  have elsewhere := record_alone record inv specified
  have notQueued := record_notQueued record inv specified unset
  have bound := record_bound record inv specified unset
  rw [result]
  refine ⟨?_, _, here⟩
  constructor
  · exact ok'
  · intro other used
    by_cases atMag : other = mag
    · subst atMag
      simpa [timer] using known
    · simp only [Function.update_of_ne atMag] at used ⊢
      exact inv.known other used
  · exact distinct_update inv elsewhere
  · intro other free
    by_cases atMag : other = mag
    · subst atMag
      simp only [Function.update_self] at free
      exact absurd free specified
    · simp only [Function.update_of_ne atMag] at free ⊢
      exact inv.free other free
  · intro l r' j u found
    by_cases ends : (l, r') = (loc, r)
    · obtain ⟨rfl, rfl⟩ := Prod.mk.inj ends
      refine ⟨rfl, specified, mag, by simp [timer], ?_⟩
      rw [here] at found
      simpa [timer] using (Prod.mk.inj (Option.some.inj found)).1
    · rw [others l r' ends] at found
      obtain ⟨isLocal, isSpecified, other, same, sameIndex⟩ := inv.recorded l r' j u found
      have different : r' ≠ r := fun equal => ends (by rw [isLocal, equal])
      have kept := record_others record timer different isSpecified same
      exact ⟨isLocal, isSpecified, other, (congrArg TunnelTimer.remote kept).trans same,
        (congrArg TunnelTimer.tunnel kept).trans sameIndex⟩
  · intro other used
    by_cases atMag : other = mag
    · subst atMag
      constructor
      · simpa [timer] using issued_of_device ok' here
      · intro _
        refine ⟨notQueued, ?_⟩
        simp only [Function.update_self, timer, usersOf_joined here]
        omega
      · intro set_
        simp only [Function.update_self] at set_
        rw [unset] at set_
        cases set_
    · simp only [Function.update_of_ne atMag] at used
      have apart := elsewhere other atMag
      refine recordCounted_frame (inv.counted other used) ?_ ?_ id ?_ issued
      · simp [Function.update_of_ne atMag]
      · exact others loc _ (fun ends => apart (Prod.mk.inj ends).2)
      · rw [Function.update_of_ne apart]
  · intro r' absent
    have different : r' ≠ r := by
      intro equal
      subst equal
      rcases absent with unspecified | new
      · exact specified unspecified
      · exact new mag (by simp [timer])
    rw [Function.update_of_ne different]
    by_cases unspecified : r' = in6addrAny
    · exact inv.unknown r' (Or.inl unspecified)
    · have new := absent.resolve_left unspecified
      refine inv.unknown r' (Or.inr ?_)
      intro other same
      apply new other
      have kept := record_others record timer different unspecified same
      exact (congrArg TunnelTimer.remote kept).trans same

theorem counted_of_record (inv : Counted loc remotes t net) {mag : Fin pmipMaxMags}
    (used : (t.timers mag).remote ≠ in6addrAny) {t' : Tunnels} {net' : In6Addr → Int}
    (ok : t'.ctl.Ok) (issued : ∀ i r, t.ctl.Issued i r → t'.ctl.Issued i r)
    (others : ∀ l r, (l, r) ≠ (loc, (t.timers mag).remote) →
      t'.ctl.device l r = t.ctl.device l r)
    (own : ∀ i u, t'.ctl.device loc (t.timers mag).remote = some (i, u) →
      i = (t.timers mag).tunnel)
    (timers : ∀ other, other ≠ mag → t'.timers other = t.timers other)
    (sameRemote : (t'.timers mag).remote = (t.timers mag).remote)
    (sameTunnel : (t'.timers mag).tunnel = (t.timers mag).tunnel)
    (queue : ∀ other, other ≠ mag → .tunnel other ∈ t'.tq.list → .tunnel other ∈ t.tq.list)
    (fewer : ∀ r, r ≠ (t.timers mag).remote → net' r ≤ net r)
    (record : RecordCounted loc t' net' mag) : Counted loc remotes t' net' := by
  have remotesSame : ∀ other, (t'.timers other).remote = (t.timers other).remote := by
    intro other
    by_cases atMag : other = mag
    · rw [atMag, sameRemote]
    · rw [timers other atMag]
  have tunnelsSame : ∀ other, (t'.timers other).tunnel = (t.timers other).tunnel := by
    intro other
    by_cases atMag : other = mag
    · rw [atMag, sameTunnel]
    · rw [timers other atMag]
  constructor
  · exact ok
  · intro other isUsed
    rw [remotesSame] at isUsed ⊢
    exact inv.known other isUsed
  · intro first second isUsed same
    rw [remotesSame] at isUsed
    rw [remotesSame, remotesSame] at same
    exact inv.distinct first second isUsed same
  · intro other isFree
    rw [remotesSame] at isFree
    have different : other ≠ mag := by
      intro same
      subst same
      exact used isFree
    obtain ⟨unset, zero, notQueued⟩ := inv.free other isFree
    rw [timers other different]
    exact ⟨unset, zero, fun member => notQueued (queue other different member)⟩
  · intro l r i u found
    by_cases ends : (l, r) = (loc, (t.timers mag).remote)
    · obtain ⟨rfl, rfl⟩ := Prod.mk.inj ends
      exact ⟨rfl, used, mag, sameRemote, sameTunnel.trans (own i u found).symm⟩
    · rw [others l r ends] at found
      obtain ⟨isLocal, isSpecified, other, same, sameIndex⟩ := inv.recorded l r i u found
      exact ⟨isLocal, isSpecified, other, (remotesSame other).trans same,
        (tunnelsSame other).trans sameIndex⟩
  · intro other isUsed
    by_cases atMag : other = mag
    · rw [atMag]
      exact record
    · rw [timers other atMag] at isUsed
      have apart : (t.timers other).remote ≠ (t.timers mag).remote := fun same =>
        atMag (inv.distinct other mag isUsed same)
      exact recordCounted_frame (inv.counted other isUsed) (timers other atMag)
        (others loc _ fun ends => apart (Prod.mk.inj ends).2) (queue other atMag)
        (fewer _ apart) issued
  · intro r absent
    have apart : r ≠ (t.timers mag).remote := by
      intro same
      subst same
      rcases absent with unspecified | new
      · exact used unspecified
      · exact new mag sameRemote
    refine (fewer r apart).trans (inv.unknown r (absent.imp_right fun new other same => ?_))
    exact new other ((remotesSame other).trans same)

theorem pmipTunnelAdd_counted (tunneling : conf.tunnelingEnabled = true)
    (dynamic : conf.dynamicTunnelingEnabled = true) (few : remotes.length ≤ pmipMaxMags)
    (inv : Counted loc remotes t net) {r : In6Addr} (known : r ∈ remotes)
    (specified : r ≠ in6addrAny)
    (noLost : ∀ mag, (t.timers mag).remote = r → tsisset (t.timers mag).lifetime = true →
      net r ≤ 0)
    {env : TunnelEnv} {i : Int} (created : env.ifindex = some i)
    (allocated : env.nodeAlloc = true) (fresh : t.ctl.Fresh i) (link : Int) :
    ∃ t' index, t.pmipTunnelAdd conf env loc r link = .ok (t', index) ∧
      Counted loc remotes t' (Function.update net r (net r + 1)) ∧
      (∃ u, t'.ctl.device loc r = some (index, u)) ∧
      ∀ j q, t.ctl.Issued j q → t'.ctl.Issued j q := by
  have grown : ∀ mag j q, t.ctl.Issued j q →
      (t.recordTunnel env mag loc r link).1.ctl.Issued j q := fun mag =>
    (tunnelAdd_spec inv.ok created allocated fresh loc r link).2.2.2.2
  by_cases new : ∀ mag, (t.timers mag).remote ≠ r
  · obtain ⟨mag, index, free⟩ := getTimerIndex_new inv few known new
    have unset := (inv.free mag free).1
    obtain ⟨inv', here⟩ := recordTunnel_counted inv known specified (Or.inr ⟨free, new⟩) unset
      created allocated fresh link
    refine ⟨_, _, ?_, inv', here, grown mag⟩
    simp [pmipTunnelAdd, tunneling, dynamic, index, unset]
  · simp only [not_forall, not_not] at new
    obtain ⟨mag, atMag⟩ := new
    have used : (t.timers mag).remote ≠ in6addrAny := atMag ▸ specified
    have index : t.pmipTunnelGetTimerIndex r = some mag := by
      rw [← atMag]
      exact getTimerIndex_of_remote inv used
    cases unset : tsisset (t.timers mag).lifetime with
    | false =>
        obtain ⟨inv', here⟩ := recordTunnel_counted inv known specified (Or.inl atMag) unset
          created allocated fresh link
        refine ⟨_, _, ?_, inv', here, grown mag⟩
        simp [pmipTunnelAdd, tunneling, dynamic, index, unset]
    | true =>
        have gone := noLost mag atMag unset
        have counted := inv.counted mag used
        obtain ⟨one, _, _⟩ := counted.pending unset
        refine ⟨{ t with tq := t.tq.delTask (.tunnel mag) }, (t.timers mag).tunnel, ?_, ?_, ?_,
          fun _ _ issued => issued⟩
        · simp [pmipTunnelAdd, tunneling, dynamic, index, unset]
        · refine counted_of_record inv used inv.ok (fun _ _ issued => issued)
            (fun _ _ _ => rfl) ?_ (fun _ _ => rfl) rfl rfl ?_ ?_ ?_
          · intro j u found
            rw [one] at found
            exact (Prod.mk.inj (Option.some.inj found)).1.symm
          · intro other _ member
            exact ((TQueue.mem_delTask _ _ _).mp member).1
          · intro r' apart
            rw [Function.update_of_ne (atMag ▸ apart)]
          · refine ⟨counted.issued, fun isUnset => ?_, fun _ => ⟨one, ?_, fun member => ?_⟩⟩
            · rw [unset] at isUnset
              cases isUnset
            · rw [atMag, Function.update_self]
              omega
            · exact absurd rfl ((TQueue.mem_delTask _ _ _).mp member).2
        · rw [← atMag]
          exact ⟨1, one⟩

theorem counted_fewer (inv : Counted loc remotes t net) {t' : Tunnels} {net' : In6Addr → Int}
    (ctl : t'.ctl = t.ctl) (timers : t'.timers = t.timers)
    (queue : ∀ mag, .tunnel mag ∈ t'.tq.list → .tunnel mag ∈ t.tq.list)
    (fewer : ∀ r, net' r ≤ net r) : Counted loc remotes t' net' := by
  obtain ⟨tq', timers', ctl'⟩ := t'
  simp only at ctl timers queue
  subst ctl timers
  refine ⟨inv.ok, inv.known, inv.distinct, ?_, inv.recorded, ?_, fun r absent =>
    (fewer r).trans (inv.unknown r absent)⟩
  · intro mag isFree
    obtain ⟨unset, zero, notQueued⟩ := inv.free mag isFree
    exact ⟨unset, zero, fun member => notQueued (queue mag member)⟩
  · intro mag used
    exact recordCounted_frame (inv.counted mag used) rfl rfl (queue mag) (fewer _)
      fun _ _ issued => issued

/-- Only the record of a remote end has the index of a device to it. -/
theorem record_unique (inv : Counted loc remotes t net) {l : In6Addr} {i u : Int}
    {mag other : Fin pmipMaxMags} (found : t.ctl.device l (t.timers mag).remote = some (i, u))
    (same : (t.timers other).tunnel = i) : other = mag := by
  have issued := issued_of_device inv.ok found
  have positive : 0 < i := by
    obtain ⟨p, below, index, _⟩ := issued
    exact index ▸ inv.ok.positive p below
  have used : (t.timers other).remote ≠ in6addrAny := by
    intro free
    have zero := (inv.free other free).2.1
    omega
  have otherIssued := (inv.counted other used).issued
  rw [same] at otherIssued
  exact inv.distinct other mag used (issued_unique inv.ok otherIssued issued)

theorem record_of_device (inv : Counted loc remotes t net) {l r : In6Addr} {i u : Int}
    (found : t.ctl.device l r = some (i, u)) :
    ∃ mag, (t.timers mag).remote = r ∧ (t.timers mag).tunnel = i ∧ r ≠ in6addrAny ∧ l = loc ∧
      (List.finRange pmipMaxMags).find? (fun other => (t.timers other).tunnel = i) = some mag := by
  obtain ⟨isLocal, specified, mag, remote, tunnel⟩ := inv.recorded l r i u found
  refine ⟨mag, remote, tunnel, specified, isLocal, ?_⟩
  cases search : (List.finRange pmipMaxMags).find? fun other => (t.timers other).tunnel = i with
  | none =>
      have missing := List.find?_eq_none.mp search mag (List.mem_finRange mag)
      simp [tunnel] at missing
  | some other =>
      have same : (t.timers other).tunnel = i := by simpa using List.find?_some search
      rw [← remote] at found
      rw [record_unique inv found same]

/-- Deleting by the index of a record leaves the devices to other remote ends
alone. -/
theorem tunnelDel_others (inv : Counted loc remotes t net) {mag : Fin pmipMaxMags}
    (used : (t.timers mag).remote ≠ in6addrAny) {l r : In6Addr}
    (apart : (l, r) ≠ (loc, (t.timers mag).remote)) :
    (t.ctl.tunnelDel (t.timers mag).tunnel).1.device l r = t.ctl.device l r := by
  obtain ⟨_, _, devices⟩ := tunnelDel_spec inv.ok (t.timers mag).tunnel
  rw [devices]
  cases here : t.ctl.device l r with
  | none => rfl
  | some v =>
      have other : v.1 ≠ (t.timers mag).tunnel := by
        intro same
        have hereIssued : t.ctl.Issued v.1 r := issued_of_device inv.ok here
        rw [same] at hereIssued
        have equal := issued_unique inv.ok hereIssued (inv.counted mag used).issued
        obtain ⟨isLocal, _⟩ := inv.recorded l r v.1 v.2 here
        exact apart (by rw [isLocal, equal])
      simp [other]

theorem armTimer_counted (inv : Counted loc remotes t net) {mag : Fin pmipMaxMags}
    (used : (t.timers mag).remote ≠ in6addrAny)
    (one : t.ctl.device loc (t.timers mag).remote = some ((t.timers mag).tunnel, 1))
    {net' : In6Addr → Int} (fewer : ∀ r, net' r ≤ net r)
    (gone : net' (t.timers mag).remote ≤ 0) {tq : TQueue TqElem}
    (queue : ∀ other, other ≠ mag → .tunnel other ∈ tq.list → .tunnel other ∈ t.tq.list)
    {expires : Timespec} (set_ : tsisset expires = true) :
    Counted loc remotes ({ t with tq := tq }.armTimer mag expires) net' := by
  refine counted_of_record inv used inv.ok (fun _ _ issued => issued) (fun _ _ _ => rfl) ?_ ?_
    ?_ ?_ ?_ (fun r _ => fewer r) ?_
  · intro i u found
    have single : t.ctl.device loc (t.timers mag).remote = some (i, u) := found
    rw [one] at single
    exact (Prod.mk.inj (Option.some.inj single)).1.symm
  · intro other different
    simp [armTimer, setTimer, Function.update_of_ne different]
  · simp [armTimer, setTimer]
  · simp [armTimer, setTimer]
  · intro other different member
    have inQueue : .tunnel other ∈ (tq.addTaskAbs expires (.tunnel mag) .tunnelExpired).list :=
      member
    rw [TQueue.mem_addTaskAbs] at inQueue
    rcases inQueue with same | old
    · exact absurd (TqElem.tunnel.inj same) different
    · exact queue other different old
  · have issued := (inv.counted mag used).issued
    refine ⟨by simpa [armTimer, setTimer] using issued, fun unset => ?_, fun _ => ?_⟩
    · simp [armTimer, setTimer, set_] at unset
    · simp only [armTimer, setTimer, Function.update_self]
      exact ⟨one, by omega, fun _ => gone⟩

theorem lastUser_counted (tunneling : conf.tunnelingEnabled = true)
    (dynamic : conf.dynamicTunnelingEnabled = true) (inv : Counted loc remotes t net)
    {i : Int} {r : In6Addr} (issued : t.ctl.Issued i r) (positive : i > 0) {now : Timespec}
    (epoch : 0 < now.tvSec)
    (forward : 0 ≤ conf.maxDelayBeforeDynamicTunnelingDelete.tvSec) {net' : In6Addr → Int}
    (fewer : ∀ r', net' r' ≤ net r') (left : net' r = net r - 1)
    (one : t.ctl.tunnelGetusers i = 1) :
    ∃ t' result, t.pmipTunnelDel conf now i = .ok (t', result) ∧ Counted loc remotes t' net' ∧
      ∀ j q, t.ctl.Issued j q → t'.ctl.Issued j q := by
  have set_ := tsisset_tsadd epoch forward
  obtain ⟨l, r', found⟩ := device_of_getusers inv.ok (le_of_lt (one ▸ Int.one_pos))
  rw [one] at found
  have sameRemote := issued_unique inv.ok issued (issued_of_device inv.ok found)
  subst sameRemote
  obtain ⟨mag, rfl, rfl, used, rfl, search⟩ := record_of_device inv found
  have index := getTimerIndex_of_remote inv used
  have counted := inv.counted mag used
  have gone : net' (t.timers mag).remote ≤ 0 := by
    cases unset : tsisset (t.timers mag).lifetime with
    | false =>
        have bound := (counted.idle unset).2
        simp only [usersOf, found] at bound
        omega
    | true =>
        have bound := (counted.pending unset).2.1
        omega
  have fromQueue : ∀ other, other ≠ mag →
      .tunnel other ∈ (t.tq.delTask (.tunnel mag)).list → .tunnel other ∈ t.tq.list :=
    fun other _ member => ((TQueue.mem_delTask _ _ _).mp member).1
  cases unset : tsisset (t.timers mag).lifetime with
  | false =>
      refine ⟨_, 0, ?_, armTimer_counted inv used found fewer gone (fun _ _ member => member) set_,
        fun _ _ issued => issued⟩
      simp [pmipTunnelDel, tunneling, positive, dynamic, one, search, pmipTunnelSetTimer, index,
        unset]
  | true =>
      cases later : tsafter (t.timers mag).lifetime
          (tsadd now conf.maxDelayBeforeDynamicTunnelingDelete) with
      | true =>
          refine ⟨_, 0, ?_, armTimer_counted inv used found fewer gone fromQueue set_,
            fun _ _ issued => issued⟩
          simp [pmipTunnelDel, tunneling, positive, dynamic, one, search, pmipTunnelSetTimer,
            index, unset, later]
      | false =>
          refine ⟨t, 0, ?_, counted_fewer inv rfl rfl (fun _ member => member) fewer,
            fun _ _ issued => issued⟩
          simp [pmipTunnelDel, tunneling, positive, dynamic, one, search, pmipTunnelSetTimer,
            index, unset, later]

theorem otherUser_counted (tunneling : conf.tunnelingEnabled = true)
    (dynamic : conf.dynamicTunnelingEnabled = true) (inv : Counted loc remotes t net)
    {i : Int} {r : In6Addr} (issued : t.ctl.Issued i r) (positive : i > 0) {now : Timespec}
    {net' : In6Addr → Int} (fewer : ∀ r', net' r' ≤ net r') (left : net' r = net r - 1)
    (one : ¬ t.ctl.tunnelGetusers i = 1) :
    ∃ t' result, t.pmipTunnelDel conf now i = .ok (t', result) ∧ Counted loc remotes t' net' ∧
      ∀ j q, t.ctl.Issued j q → t'.ctl.Issued j q := by
  obtain ⟨ok', issued', devices⟩ := tunnelDel_spec inv.ok i
  have result : t.pmipTunnelDel conf now i =
      .ok ({ t with ctl := (t.ctl.tunnelDel i).1 }, (t.ctl.tunnelDel i).2) := by
    simp [pmipTunnelDel, tunneling, positive, dynamic, one]
  refine ⟨_, _, result, ?_, fun j q => (issued' j q).mpr⟩
  cases located : t.ctl.getTnl i with
  | none =>
      have same : (t.ctl.tunnelDel i).1 = t.ctl := by simp [tunnelDel, located]
      exact counted_fewer inv same rfl (fun _ member => member) fewer
  | some p =>
      obtain ⟨member, index⟩ := getTnl_some located
      have found := device_of_mem inv.ok member
      rw [index] at found
      have sameRemote := issued_unique inv.ok issued (issued_of_device inv.ok found)
      have many : (t.ctl.heap p).users ≠ 1 := by
        rw [← getusers_of_device inv.ok found]
        exact one
      obtain ⟨mag, remote, rfl, specified, isLocal, _⟩ := record_of_device inv found
      rw [← remote] at found sameRemote specified
      rw [isLocal] at found
      have counted := inv.counted mag specified
      have after : (t.ctl.tunnelDel (t.timers mag).tunnel).1.device loc (t.timers mag).remote =
          some ((t.timers mag).tunnel, (t.ctl.heap p).users - 1) := by
        simp [devices, found, many]
      refine counted_of_record inv specified ok' (fun j q => (issued' j q).mpr)
        (fun _ _ apart => tunnelDel_others inv specified apart) ?_
        (fun _ _ => rfl) rfl rfl (fun _ _ queued => queued) (fun r' _ => fewer r') ?_
      · intro j u isDevice
        rw [after] at isDevice
        exact (Prod.mk.inj (Option.some.inj isDevice)).1.symm
      · refine ⟨(issued' _ _).mpr counted.issued, fun unset => ?_, fun isSet => ?_⟩
        · obtain ⟨notQueued, bound⟩ := counted.idle unset
          refine ⟨notQueued, ?_⟩
          simp only [usersOf, after, found] at bound ⊢
          rw [← sameRemote]
          rw [← sameRemote] at bound
          omega
        · have single := (counted.pending isSet).1
          rw [found] at single
          exact absurd (Prod.mk.inj (Option.some.inj single)).2 many

theorem pmipTunnelDel_counted (tunneling : conf.tunnelingEnabled = true)
    (dynamic : conf.dynamicTunnelingEnabled = true) (inv : Counted loc remotes t net)
    {i : Int} {r : In6Addr} (issued : t.ctl.Issued i r) {now : Timespec} (epoch : 0 < now.tvSec)
    (forward : 0 ≤ conf.maxDelayBeforeDynamicTunnelingDelete.tvSec) {net' : In6Addr → Int}
    (fewer : ∀ r', net' r' ≤ net r') (left : net' r = net r - 1) :
    ∃ t' result, t.pmipTunnelDel conf now i = .ok (t', result) ∧ Counted loc remotes t' net' ∧
      ∀ j q, t.ctl.Issued j q → t'.ctl.Issued j q := by
  have positive : i > 0 := by
    obtain ⟨p, below, index, _⟩ := issued
    exact index ▸ inv.ok.positive p below
  by_cases one : t.ctl.tunnelGetusers i = 1
  · exact lastUser_counted tunneling dynamic inv issued positive epoch forward fewer left one
  · exact otherUser_counted tunneling dynamic inv issued positive fewer left one

theorem tunnelExpired_counted (inv : Counted loc remotes t net) {mag : Fin pmipMaxMags}
    (queued : .tunnel mag ∈ t.tq.list) :
    Counted loc remotes
      ({ t with tq := t.tq.delTask (.tunnel mag) }.pmipTimerTunnelExpiredHandler mag) net := by
  have used : (t.timers mag).remote ≠ in6addrAny := fun free =>
    (inv.free mag free).2.2 queued
  have counted := inv.counted mag used
  have isSet : tsisset (t.timers mag).lifetime = true := by
    cases unset : tsisset (t.timers mag).lifetime with
    | true => rfl
    | false => exact absurd queued (counted.idle unset).1
  obtain ⟨one, _, gone⟩ := counted.pending isSet
  obtain ⟨ok', issued', devices⟩ := tunnelDel_spec inv.ok (t.timers mag).tunnel
  have after : (t.ctl.tunnelDel (t.timers mag).tunnel).1.device loc (t.timers mag).remote =
      none := by
    simp [devices, one]
  refine counted_of_record inv used ok' (fun j q => (issued' j q).mpr)
    (fun _ _ apart => tunnelDel_others inv used apart) ?_ ?_ ?_ ?_ ?_ (fun _ _ => le_refl _) ?_
  · intro j u isDevice
    have missing : none = some (j, u) := after.symm.trans isDevice
    cases missing
  · intro other different
    simp [pmipTimerTunnelExpiredHandler, setTimer, Function.update_of_ne different]
  · simp [pmipTimerTunnelExpiredHandler, setTimer]
  · simp [pmipTimerTunnelExpiredHandler, setTimer]
  · intro other _ member
    exact ((TQueue.mem_delTask _ _ _).mp member).1
  · constructor
    · simpa [pmipTimerTunnelExpiredHandler, setTimer] using (issued' _ _).mpr counted.issued
    · intro _
      refine ⟨fun member => absurd rfl ((TQueue.mem_delTask _ _ _).mp member).2, ?_⟩
      have users : usersOf (t.ctl.tunnelDel (t.timers mag).tunnel).1 loc
          (t.timers mag).remote = 0 := by
        simp [usersOf, after]
      simpa [pmipTimerTunnelExpiredHandler, setTimer, users] using gone queued
    · intro unset
      simp [pmipTimerTunnelExpiredHandler, setTimer, tsisset] at unset

end Calls

/-! ## Whole runs -/

/-- What a run keeps besides the counts: every returned index belongs to its
remote end. -/
structure RunCounted (loc : In6Addr) (remotes : List In6Addr) (s : TunnelRun) : Prop where
  counted : Counted loc remotes s.tunnels s.net
  returned : ∀ i r, (i, r) ∈ s.returned → s.tunnels.ctl.Issued i r
  last : ∀ i, s.lastIndex = some i → ∃ r u, s.tunnels.ctl.device loc r = some (i, u)

theorem runCounted_init (loc : In6Addr) (remotes : List In6Addr) :
    RunCounted loc remotes TunnelRun.init :=
  ⟨counted_init loc remotes, by simp [TunnelRun.init], by simp [TunnelRun.init]⟩

theorem tunnelsKept_of_runCounted {loc : In6Addr} {remotes : List In6Addr} {s : TunnelRun}
    (inv : RunCounted loc remotes s) : TunnelsKept loc s := by
  refine ⟨fun remote users => ?_, inv.last⟩
  have counted := inv.counted
  by_cases absent : remote = in6addrAny ∨ ∀ mag, (s.tunnels.timers mag).remote ≠ remote
  · have none_ := counted.unknown remote absent
    omega
  · simp only [not_or, not_forall, not_not] at absent
    obtain ⟨specified, mag, rfl⟩ := absent
    have record := counted.counted mag specified
    cases unset : tsisset (s.tunnels.timers mag).lifetime with
    | false =>
        obtain ⟨notQueued, bound⟩ := record.idle unset
        simp only [usersOf] at bound
        cases found : s.tunnels.ctl.device loc (s.tunnels.timers mag).remote with
        | none =>
            rw [found] at bound
            simp only at bound
            omega
        | some v =>
            rw [found] at bound
            simp only at bound
            refine ⟨v.1, v.2, rfl, by omega, fun other queued same => ?_⟩
            rw [record_unique counted found same] at queued
            exact notQueued queued
    | true =>
        obtain ⟨one, _, gone⟩ := record.pending unset
        refine ⟨_, 1, one, le_refl _, fun other queued same => ?_⟩
        rw [record_unique counted one same] at queued
        have none_ := gone queued
        omega

section Runs
variable {conf : Conf} {loc : In6Addr} {remotes : List In6Addr}

theorem addStep_counted (tunneling : conf.tunnelingEnabled = true)
    (dynamic : conf.dynamicTunnelingEnabled = true) (few : remotes.length ≤ pmipMaxMags)
    {s : TunnelRun} (inv : RunCounted loc remotes s) {remote : In6Addr} {link : Int}
    {env : TunnelEnv} (supported : Supported remotes s (.add remote link env))
    (noLost : NoLostUser s (.add remote link env)) :
    ∃ next, tunnelStep conf loc s (.add remote link env) = .ok next ∧
      RunCounted loc remotes next := by
  obtain ⟨known, allocated, isSome, isFresh⟩ := supported
  obtain ⟨i, created⟩ := Option.isSome_iff_exists.mp isSome
  have fresh := isFresh i created
  obtain ⟨t, index, added, counted, here, grown⟩ :=
    pmipTunnelAdd_counted tunneling dynamic few inv.counted known noLost.1 noLost.2 created
      allocated fresh link
  have taken : tunnelStep conf loc s (.add remote link env) = .ok {
      tunnels := t
      net := Function.update s.net remote (s.net remote + 1)
      returned := (index, remote) :: s.returned
      lastIndex := some index } := by
    simp only [tunnelStep, added]
  refine ⟨_, taken, counted, fun j r member => ?_, fun j last => ?_⟩
  · rcases List.mem_cons.mp member with new | old
    · obtain ⟨rfl, rfl⟩ := Prod.mk.inj new
      obtain ⟨u, found⟩ := here
      exact issued_of_device counted.ok found
    · exact grown j r (inv.returned j r old)
  · obtain rfl := Option.some.inj last
    exact ⟨remote, here⟩

theorem delStep_counted (tunneling : conf.tunnelingEnabled = true)
    (dynamic : conf.dynamicTunnelingEnabled = true)
    (forward : 0 ≤ conf.maxDelayBeforeDynamicTunnelingDelete.tvSec)
    {s : TunnelRun} (inv : RunCounted loc remotes s) {tunnel : Int} {now : Timespec}
    (supported : Supported remotes s (.del tunnel now)) :
    ∃ next, tunnelStep conf loc s (.del tunnel now) = .ok next ∧ RunCounted loc remotes next := by
  obtain ⟨wasReturned, epoch⟩ := supported
  obtain ⟨⟨index, remote⟩, pair, same⟩ := List.mem_map.mp wasReturned
  have member : (tunnel, remote) ∈ s.returned := same ▸ pair
  have issued := inv.returned tunnel remote member
  have fewer : ∀ r, (if (tunnel, r) ∈ s.returned then s.net r - 1 else s.net r) ≤ s.net r := by
    intro r
    split <;> omega
  have left : (if (tunnel, remote) ∈ s.returned then s.net remote - 1 else s.net remote) =
      s.net remote - 1 := if_pos member
  obtain ⟨t, result, deleted, counted, grown⟩ :=
    pmipTunnelDel_counted tunneling dynamic inv.counted issued epoch forward fewer left
  have taken : tunnelStep conf loc s (.del tunnel now) = .ok { s with
      tunnels := t
      net := fun r => if (tunnel, r) ∈ s.returned then s.net r - 1 else s.net r
      lastIndex := none } := by
    simp only [tunnelStep, deleted]
  refine ⟨_, taken, counted, fun j r old => ?_, fun _ last => by cases last⟩
  exact grown j r (inv.returned j r old)

theorem fireStep_counted {s : TunnelRun} (inv : RunCounted loc remotes s) (now : Timespec) :
    ∃ next, tunnelStep conf loc s (.fire now) = .ok next ∧ RunCounted loc remotes next := by
  cases popped : s.tunnels.tq.runner now with
  | none =>
      have taken : tunnelStep conf loc s (.fire now) = .ok { s with lastIndex := none } := by
        simp only [tunnelStep, popped]
      exact ⟨_, taken, inv.counted, inv.returned, fun _ last => by cases last⟩
  | some pair =>
      obtain ⟨e, tq⟩ := pair
      obtain ⟨queued, rfl⟩ := TQueue.runner_some popped
      cases e with
      | bce entry =>
          have taken : tunnelStep conf loc s (.fire now) = .ok { s with
              tunnels := { s.tunnels with tq := s.tunnels.tq.delTask (.bce entry) }
              lastIndex := none } := by
            simp only [tunnelStep, popped]
          refine ⟨_, taken, ?_, inv.returned, fun _ last => by cases last⟩
          exact counted_fewer inv.counted rfl rfl
            (fun mag member => ((TQueue.mem_delTask _ _ _).mp member).1) fun _ => le_refl _
      | tunnel mag =>
          have taken : tunnelStep conf loc s (.fire now) = .ok { s with
              tunnels := { s.tunnels with tq := s.tunnels.tq.delTask (.tunnel mag)
                }.pmipTimerTunnelExpiredHandler mag
              lastIndex := none } := by
            simp only [tunnelStep, popped]
          refine ⟨_, taken, tunnelExpired_counted inv.counted queued, fun j r old => ?_,
            fun _ last => by cases last⟩
          exact ((tunnelDel_spec inv.counted.ok _).2.1 j r).mpr (inv.returned j r old)

theorem tunnelStep_counted (tunneling : conf.tunnelingEnabled = true)
    (dynamic : conf.dynamicTunnelingEnabled = true)
    (forward : 0 ≤ conf.maxDelayBeforeDynamicTunnelingDelete.tvSec)
    (few : remotes.length ≤ pmipMaxMags) {s : TunnelRun} (inv : RunCounted loc remotes s)
    {c : TunnelCall} (supported : Supported remotes s c) (noLost : NoLostUser s c) :
    ∃ next, tunnelStep conf loc s c = .ok next ∧ RunCounted loc remotes next := by
  cases c with
  | add remote link env => exact addStep_counted tunneling dynamic few inv supported noLost
  | del tunnel now => exact delStep_counted tunneling dynamic forward inv supported
  | fire now => exact fireStep_counted inv now

/-- Over every interleaving in which no addition is made for a remote end that
has users while a deletion of its tunnel is on record, no call fails, every
remote end with users keeps its tunnel with no deletion pending, and every
returned index names a tunnel. -/
theorem tunnel_users_kept (conf : Conf) (tunneling : conf.tunnelingEnabled = true)
    (dynamic : conf.dynamicTunnelingEnabled = true)
    (forward : 0 ≤ conf.maxDelayBeforeDynamicTunnelingDelete.tvSec) (loc : In6Addr)
    (remotes : List In6Addr) (few : remotes.length ≤ pmipMaxMags) (calls : List TunnelCall)
    (meets : Meets (tunnelStep conf loc) (fun s c => Supported remotes s c ∧ NoLostUser s c)
      TunnelRun.init calls) :
    ∃ final, run (tunnelStep conf loc) TunnelRun.init calls = .ok final ∧
      TunnelsKept loc final := by
  obtain ⟨final, finished, counted⟩ := run_succeeds
    (fun s c inv condition => tunnelStep_counted tunneling dynamic forward few inv
      condition.1 condition.2) (runCounted_init loc remotes) meets
  exact ⟨final, finished, tunnelsKept_of_runCounted counted⟩

end Runs

/-- A tunnel that is added, released and added again. -/
theorem tunnel_users_kept_readded :
    ∃ final, run (tunnelStep (confDynamic .ha) in6addrAny) TunnelRun.init
        [.add in6addrLoopback 2 ⟨some 10, true⟩, .del 10 ⟨100, 0⟩,
          .add in6addrLoopback 2 ⟨some 11, true⟩] = .ok final ∧
      TunnelsKept in6addrAny final :=
  tunnel_users_kept (confDynamic .ha) rfl rfl (by decide) in6addrAny [in6addrLoopback] (by decide)
    _ (by decide)

/-- With a second addition after the deletion was recorded, the next deletion
queues the expiry task although one user is left. -/
theorem tunnel_user_lost :
    ¬ ∀ calls : List TunnelCall,
      Meets (tunnelStep (confDynamic .ha) in6addrAny) (Supported [in6addrLoopback])
        TunnelRun.init calls →
      ∃ final, run (tunnelStep (confDynamic .ha) in6addrAny) TunnelRun.init calls = .ok final ∧
        TunnelsKept in6addrAny final := by
  intro claimed
  obtain ⟨final, finished, kept, _⟩ := claimed
    [.add in6addrLoopback 2 ⟨some 10, true⟩, .del 10 ⟨100, 0⟩,
      .add in6addrLoopback 2 ⟨some 11, true⟩, .add in6addrLoopback 2 ⟨some 12, true⟩,
      .del 10 ⟨200, 0⟩] (by decide)
  have reached := Except.ok.inj finished
  subst reached
  obtain ⟨index, users, found, _, idle⟩ := kept in6addrLoopback (by decide)
  have isTen : index = 10 := by
    have entry := congrArg (Option.map Prod.fst) found
    exact (Option.some.inj entry).symm
  have unnamed := idle 0 (by decide)
  subst isTen
  exact unnamed rfl

end OaiPmip.TunnelUsers
