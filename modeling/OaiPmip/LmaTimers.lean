import OaiPmip.LmaMoves

/-!
# The anchor's expiry timers

A binding's timer is started by the registration, started again when the entry
is linked, started anew by every refresh and stopped before the entry goes.
`add_task_abs` takes a queued element off the queue first only if its expiry
time is set, so an element stays queued once as long as the times that are
queued are not zero.
-/

set_option autoImplicit false

namespace OaiPmip.Daemon

open OaiPmip.HashKeys OaiPmip.Msgs OaiPmip.Runs

/-- The timer of a binding is queued once, to end the binding when its lifetime
has passed. -/
def Timed (d : Daemon) (bce : Nat) : Prop :=
  d.tun.tq.slot (.bce bce) =
    (1, tsadd (d.heap bce).addTime (d.heap bce).lifetime, some .bceExpired)

def Fit (d : Daemon) (bce : Nat) : Prop :=
  .bce bce ∈ d.tun.tq.list → tsisset (d.tun.tq.expires (.bce bce)) = true

def TimersExact (d : Daemon) : Prop :=
  (∀ bce ∈ d.entries, d.Timed bce) ∧
    ∀ bce, .bce bce ∈ d.tun.tq.list → d.tun.tq.task (.bce bce) = some .bceExpired →
      bce ∈ d.entries

section Slots
variable {conf : Conf} {d d' : Daemon} {env : Env} {bce : Nat}

theorem Fit.same (fit : d.Fit bce)
    (same : d'.tun.tq.slot (.bce bce) = d.tun.tq.slot (.bce bce)) : d'.Fit bce := by
  simp only [Fit]
  rw [TQueue.mem_iff_slot, same, ← TQueue.mem_iff_slot]
  have expires : d'.tun.tq.expires (.bce bce) = d.tun.tq.expires (.bce bce) :=
    congrArg (·.2.1) same
  rw [expires]
  exact fit

theorem Timed.same (timed : d.Timed bce)
    (slot : d'.tun.tq.slot (.bce bce) = d.tun.tq.slot (.bce bce))
    (addTime : (d'.heap bce).addTime = (d.heap bce).addTime)
    (lifetime : (d'.heap bce).lifetime = (d.heap bce).lifetime) : d'.Timed bce := by
  simp only [Timed]
  rw [slot, addTime, lifetime]
  exact timed

theorem tunnelAdd_slot {remote : In6Addr} {link : Int}
    (added : d.pmipTunnelAdd conf env bce remote link = .ok d') (p : Nat) :
    d'.tun.tq.slot (.bce p) = d.tun.tq.slot (.bce p) := by
  simp only [pmipTunnelAdd] at added
  split at added
  · cases added
  · rename_i opened
    cases added
    exact Tunnels.pmipTunnelAdd_slot opened p

theorem lmaRelease_slot (released : d.lmaRelease conf env bce = .ok d') (p : Nat) :
    d'.tun.tq.slot (.bce p) = d.tun.tq.slot (.bce p) := by
  unfold lmaRelease pmipTunnelDel at released
  dsimp only at released
  split at released
  · cases released
  · rename_i closed
    have unrouted : (lmaRemoveRoute conf (d.getMnAddr bce) ((d.getMnAddr bce).heap bce).mnAddr
        ((d.getMnAddr bce).heap bce).tunnel).tun = d.tun := by
      simp only [lmaRemoveRoute]
      split <;> rfl
    rw [unrouted] at closed
    cases released
    exact Tunnels.pmipTunnelDel_slot closed p

theorem lmaUpdate_slot {info : MsgInfo}
    (update : d.lmaUpdateBindingEntry conf env bce info = .ok d') (p : Nat) :
    d'.tun.tq.slot (.bce p) = d.tun.tq.slot (.bce p) := by
  simp only [lmaUpdateBindingEntry] at update
  obtain ⟨checked, checks, done⟩ := bind_eq_ok.mp update
  have same : checked.tun.tq.slot (.bce p) = d.tun.tq.slot (.bce p) := by
    unfold lmaCheckPrefix at checks
    split at checks
    · cases checks
      rfl
    · split at checks
      · dsimp only at checks
        split at checks
        · cases checks
          rfl
        · split at checks
          · exact lmaRelease_slot checks p
          · cases checks
            rfl
      · exact lmaRelease_slot checks p
  cases done
  exact same

/-- A timer that was started in going from `d` to `d'`.  Its element is queued
once if it was fit to be queued before. -/
structure Started (env : Env) (bce : Nat) (d d' : Daemon) : Prop where
  clock : (d'.heap bce).addTime = env.now
  expires : d'.tun.tq.expires (.bce bce) = tsadd (d'.heap bce).addTime (d'.heap bce).lifetime
  task : d'.tun.tq.task (.bce bce) = some .bceExpired
  once : d.Fit bce → tsisset (d'.tun.tq.expires (.bce bce)) = true →
    d'.tun.tq.list.count (.bce bce) = 1

theorem Started.timed (started : Started env bce d d') (fit : d.Fit bce)
    (due : tsisset (tsadd (d'.heap bce).addTime (d'.heap bce).lifetime) = true) :
    d'.Timed bce := by
  have once := started.once fit (by rw [started.expires]; exact due)
  simp only [Timed, TQueue.slot, once, started.expires, started.task]

theorem Timed.fit (timed : d.Timed bce)
    (due : tsisset (tsadd (d.heap bce).addTime (d.heap bce).lifetime) = true) : d.Fit bce := by
  intro _
  have expires : d.tun.tq.expires (.bce bce) =
      tsadd (d.heap bce).addTime (d.heap bce).lifetime := congrArg (·.2.1) timed
  rw [expires]
  exact due

theorem Started.around {start d'' : Daemon} (started : Started env bce d d')
    (before : d.tun.tq.slot (.bce bce) = start.tun.tq.slot (.bce bce))
    (after : d''.tun = d'.tun) (addTime : (d''.heap bce).addTime = (d'.heap bce).addTime)
    (lifetime : (d''.heap bce).lifetime = (d'.heap bce).lifetime) :
    Started env bce start d'' where
  clock := addTime.trans started.clock
  expires := by
    rw [after, addTime, lifetime]
    exact started.expires
  task := by
    rw [after]
    exact started.task
  once := by
    rw [after]
    exact fun fit => started.once (fit.same before)

theorem started_cacheStart (d : Daemon) (env : Env) (bce : Nat) :
    Started env bce d (d.pmipCacheStart env bce) := by
  constructor
  · simp [pmipCacheStart, addTask, modify]
  · simp [pmipCacheStart, addTask, modify, TQueue.addTaskAbs]
  · simp [pmipCacheStart, addTask]
  · intro fit _
    have queued := TQueue.slot_addTaskAbs_self d.tun.tq
      (tsadd env.now (d.heap bce).lifetime) (.bce bce) .bceExpired fit
    exact congrArg (·.1) queued

theorem started_lmaRegNoNewTunnel (conf : Conf) (d : Daemon) (env : Env) (bce : Nat) :
    Started env bce d (d.lmaRegNoNewTunnel conf env bce) := by
  have started := started_cacheStart (d.modify bce fun e => { e with status := 0 }) env bce
  unfold lmaRegNoNewTunnel mhSendPba
  dsimp only
  split
  · refine started.around rfl rfl ?_ ?_
    · simp [emit, modify]
    · simp [emit, modify]
  · exact started.around rfl rfl rfl rfl

theorem started_lmaReg (reg : d.lmaReg conf env bce = .ok d') : Started env bce d d' := by
  unfold lmaReg at reg
  dsimp only at reg
  obtain ⟨tunnelled, opened, reg⟩ := bind_eq_ok.mp reg
  obtain ⟨routed, adds, done⟩ := bind_eq_ok.mp reg
  have before : (tunnelled.lmaForward conf bce).tun.tq.slot (.bce bce) =
      d.tun.tq.slot (.bce bce) := by
    have forwarded : (tunnelled.lmaForward conf bce).tun = tunnelled.tun := by
      unfold lmaForward lmaSetupRoute
      dsimp only
      split <;> rfl
    rw [forwarded]
    exact tunnelAdd_slot opened bce
  have started := started_lmaRegNoNewTunnel conf (tunnelled.lmaForward conf bce) env bce
  simp only [addClientRoute] at adds
  split at adds
  · cases adds
    cases done
    exact started.around before rfl rfl rfl
  · cases adds

theorem Started.cacheAdd (conf : Conf) (started : Started env bce d d') :
    Started env bce d (d'.pmipCacheAdd conf env bce) := by
  obtain ⟨heap, tun, _, _⟩ := cacheInsert_keeps (d'.nextBid bce) env bce
  have addTime : (((d'.nextBid bce).pmipcacheInsert env bce).1.heap bce).addTime =
      (d'.heap bce).addTime := by
    rw [heap]
    simp [nextBid, modify]
  have lifetime : (((d'.nextBid bce).pmipcacheInsert env bce).1.heap bce).lifetime =
      (d'.heap bce).lifetime := by
    rw [heap]
    simp [nextBid, modify]
  have inserts := started.around rfl tun addTime lifetime
  simp only [pmipCacheAdd]
  split
  · rename_i refused shape
    rw [shape] at inserts
    exact inserts
  · rename_i linked shape
    rw [shape] at inserts
    have counted : Started env bce d (linked.modify bce fun e =>
        { e with nRetsCounter := conf.maxMessageRetransmissions }) := by
      refine inserts.around rfl rfl ?_ ?_
      · simp [modify]
      · simp [modify]
    unfold inserted
    dsimp only
    split
    · have again := started_cacheStart (linked.modify bce fun e =>
        { e with nRetsCounter := conf.maxMessageRetransmissions }) env bce
      refine { again with once := ?_ }
      intro fit due
      refine again.once (fun queued => ?_) due
      -- the second start is due at the same time as the first
      rw [counted.expires, counted.clock]
      simpa [pmipCacheStart, addTask, modify, TQueue.addTaskAbs] using due
    · exact counted

end Slots

/-! ## The queue of the anchor -/

/-- Only expiries are queued on the anchor. -/
structure LmaExpiring (d : Daemon) : Prop extends LmaArmed d where
  expiring : ∀ bce ∈ d.entries, d.tun.tq.task (.bce bce) = some .bceExpired

section Others
variable {d d' : Daemon} {bce : Nat}

theorem LmaArmed.remaining (ok : LmaArmed d) (member : bce ∈ d.entries)
    (frame : Frame PmipEntry.owner bce d d') {p : Nat}
    (remains : p ∈ (d'.pmipBceDelete bce).entries) : p ≠ bce ∧ p ∈ d.entries := by
  have perm := ok.removed member frame
  refine ⟨?_, perm.mem_iff.mpr (List.mem_cons_of_mem bce remains)⟩
  intro same
  subst same
  have once := perm.nodup_iff.mp ok.toHashOk.nodup
  exact (List.nodup_cons.mp once).1 remains

theorem delete_slot (frame : Frame PmipEntry.owner bce d d') {p : Nat} (different : p ≠ bce) :
    (d'.pmipBceDelete bce).tun.tq.slot (.bce p) = d.tun.tq.slot (.bce p) := by
  have apart : TqElem.bce p ≠ .bce bce := by simpa using different
  exact (TQueue.slot_delTask_of_ne d'.tun.tq apart).trans (frame.slots p different)

end Others

namespace LmaExpiring

variable {conf : Conf} {d d' : Daemon} {env : Env} {info : MsgInfo} {bce : Nat}

theorem expires (ok : LmaExpiring d) (queued : .bce bce ∈ d.tun.tq.list) :
    d.tun.tq.task (.bce bce) = some .bceExpired := ok.expiring bce (ok.armed bce queued)

theorem delete (ok : LmaExpiring d) (member : bce ∈ d.entries)
    (frame : Frame PmipEntry.owner bce d d') : LmaExpiring (d'.pmipBceDelete bce) := by
  refine { ok.toLmaArmed.delete member frame with expiring := ?_ }
  intro p remains
  obtain ⟨different, before⟩ := ok.toLmaArmed.remaining member frame remains
  have task := congrArg (·.2.2) (delete_slot frame different)
  exact task.trans (ok.expiring p before)

theorem move (ok : LmaExpiring d) (memory : d.FindsMemory env info)
    (moved : LmaMove conf env d info d') : LmaExpiring d' := by
  have next := ok.toLmaArmed.move memory moved
  cases moved with
  | ignored => exact ok
  | @registered updated filled missing asks update reg =>
      have perm := ok.toLmaArmed.joined missing (memory asks missing) update reg
      obtain ⟨_, frame, _⟩ := ok.toLmaOk.admission update reg
      have added := pmipCacheAdd_added conf filled env d.top
      refine { next with expiring := ?_ }
      intro p member
      rcases List.mem_cons.mp (perm.mem_iff.mp member) with rfl | before
      · exact ((started_lmaReg reg).cacheAdd conf).task
      · have different : p ≠ d.top := fun here => ok.toHashOk.top_notMem (here ▸ before)
        have slot := (added.slots p different).trans (frame.slots p different)
        exact (congrArg (·.2.2) slot).trans (ok.expiring p before)
  | @refreshed bce start updated found asks began update =>
      refine { next with expiring := ?_ }
      intro p member
      have frame := frame_refreshed began update
      rw [frame.entries] at member
      by_cases here : p = bce
      · rw [here]
        exact (started_lmaRegNoNewTunnel conf updated env bce).task
      · exact (congrArg (·.2.2) (frame.slots p here)).trans (ok.expiring p member)
  | @deregistered bce mid found asks dereg =>
      have member := (cached_some found).1
      have rest := ok.delete member ((frame_lmaDereg conf d env bce (some info.seqno)).of_ok dereg)
      exact { next with expiring := rest.expiring }

theorem tick (ok : LmaExpiring d) (ticked : LmaTick conf env d d') : LmaExpiring d' := by
  have next := ok.toLmaArmed.tick ticked
  cases ticked with
  | idle => exact ok
  | @expired bce mid queued dereg =>
      exact ok.delete (ok.armed bce queued) ((frame_popped _ d bce).trans
        ((frame_lmaDereg conf _ env bce none).of_ok dereg))
  | @retransmitted bce _ queued task taken =>
      rw [ok.expires queued] at task
      cases task
  | @popped bce queued odd => exact absurd (ok.expires queued) odd
  | @tunnelExpired mag queued => exact { next with expiring := ok.expiring }

end LmaExpiring

theorem lmaExpiring_init {tun : Tunnels} (idle : tun.tq = TQueue.empty TqElem)
    (hnp : List MnidHnp) : LmaExpiring (init tun hnp) := by
  have unarmed : ∀ bce, .bce bce ∉ tun.tq.list := by simp [idle, TQueue.empty]
  exact { lmaArmed_init tun hnp unarmed with expiring := by simp [entries, init] }

/-! ## Bindings and their timers -/

structure TimersOk (d : Daemon) : Prop extends LmaExpiring d where
  timed : ∀ bce ∈ d.entries, d.Timed bce
  due : ∀ bce ∈ d.entries, tsisset (tsadd (d.heap bce).addTime (d.heap bce).lifetime) = true

namespace TimersOk

variable {conf : Conf} {d d' : Daemon} {env : Env} {info : MsgInfo} {bce : Nat}

theorem exact (ok : TimersOk d) : d.TimersExact :=
  ⟨ok.timed, fun bce queued _ => ok.armed bce queued⟩

theorem fit (ok : TimersOk d) (bce : Nat) : d.Fit bce := fun queued =>
  have member := ok.armed bce queued
  (ok.timed bce member).fit (ok.due bce member) queued

theorem kept (ok : TimersOk d) {p : Nat} (member : p ∈ d.entries)
    (slot : d'.tun.tq.slot (.bce p) = d.tun.tq.slot (.bce p)) (heap : d'.heap p = d.heap p) :
    d'.Timed p ∧ tsisset (tsadd (d'.heap p).addTime (d'.heap p).lifetime) = true := by
  refine ⟨(ok.timed p member).same slot (by rw [heap]) (by rw [heap]), ?_⟩
  rw [heap]
  exact ok.due p member

theorem registered (ok : TimersOk d) {updated filled : Daemon} (epoch : 0 < env.now.tvSec)
    (asks : Registers info)
    (update : (d.admitted info).lmaUpdateBindingEntry conf env d.top info = .ok updated)
    (reg : updated.lmaReg conf env d.top = .ok filled) :
    (filled.pmipCacheAdd conf env d.top).Timed d.top ∧
      tsisset (tsadd ((filled.pmipCacheAdd conf env d.top).heap d.top).addTime
        ((filled.pmipCacheAdd conf env d.top).heap d.top).lifetime) = true := by
  have fit : updated.Fit d.top := by
    have unqueued : (d.admitted info).Fit d.top := fun queued =>
      absurd queued ok.toHashOk.top_unqueued
    exact unqueued.same (lmaUpdate_slot update d.top)
  have started := (started_lmaReg reg).cacheAdd conf
  have filledLifetime := congrArg PmipEntry.lifetime
    ((frame_lmaReg conf updated env d.top).of_ok reg).entry
  have lifetime := congrArg PmipEntry.lifetime (pmipCacheAdd_added conf filled env d.top).entry
  simp only [PmipEntry.untunnelled, PmipEntry.content] at filledLifetime lifetime
  rw [filledLifetime, lmaUpdate_entry update] at lifetime
  have due : tsisset (tsadd env.now ⟨info.lifetime.tvSec, 0⟩) = true :=
    tsisset_tsadd epoch (Int.le_of_lt asks.2)
  rw [← started.clock] at due
  rw [lifetime]
  refine ⟨started.timed fit ?_, due⟩
  rw [lifetime]
  exact due

theorem refreshed (ok : TimersOk d) {start updated : Daemon} (epoch : 0 < env.now.tvSec)
    (asks : Registers info)
    (began : start = d ∨ info.src = in6addrAny ∧
      ∃ first, d.lmaUpdateBindingEntry conf env bce info = .ok first ∧
        first.lmaReg conf env bce = .ok start)
    (update : start.lmaUpdateBindingEntry conf env bce info = .ok updated) :
    ((updated.lmaRegNoNewTunnel conf env bce).getMnAddr bce).Timed bce ∧
      tsisset (tsadd (((updated.lmaRegNoNewTunnel conf env bce).getMnAddr bce).heap bce).addTime
        (((updated.lmaRegNoNewTunnel conf env bce).getMnAddr bce).heap bce).lifetime) = true := by
  have due : tsisset (tsadd env.now ⟨info.lifetime.tvSec, 0⟩) = true :=
    tsisset_tsadd epoch (Int.le_of_lt asks.2)
  have startFit : start.Fit bce := by
    rcases began with rfl | ⟨_, first, firstUpdate, reg⟩
    · exact ok.fit bce
    · have firstFit : first.Fit bce := (ok.fit bce).same (lmaUpdate_slot firstUpdate bce)
      have started := started_lmaReg reg
      have lifetime := congrArg PmipEntry.lifetime
        ((frame_lmaReg conf first env bce).of_ok reg).entry
      simp only [PmipEntry.untunnelled, PmipEntry.content] at lifetime
      rw [lmaUpdate_entry firstUpdate] at lifetime
      have firstDue : tsisset (tsadd (start.heap bce).addTime (start.heap bce).lifetime) = true := by
        rw [started.clock, lifetime]
        exact due
      exact (started.timed firstFit firstDue).fit firstDue
  have started : Started env bce updated ((updated.lmaRegNoNewTunnel conf env bce).getMnAddr bce) := by
    refine (started_lmaRegNoNewTunnel conf updated env bce).around rfl rfl ?_ ?_
    · simp [getMnAddr, modify]
    · simp [getMnAddr, modify]
  have entry : (((updated.lmaRegNoNewTunnel conf env bce).getMnAddr bce).heap bce).untunnelled =
      ((start.heap bce).updated conf info).untunnelled := refreshed_entry update
  have lifetime := congrArg PmipEntry.lifetime entry
  simp only [PmipEntry.untunnelled, PmipEntry.content] at lifetime
  rw [lifetime, started.clock]
  refine ⟨started.timed (startFit.same (lmaUpdate_slot update bce)) ?_, due⟩
  rw [lifetime, started.clock]
  exact due

theorem delete (ok : TimersOk d) (member : bce ∈ d.entries)
    (frame : Frame PmipEntry.owner bce d d') :
    ∀ p ∈ (d'.pmipBceDelete bce).entries, (d'.pmipBceDelete bce).Timed p ∧
      tsisset (tsadd ((d'.pmipBceDelete bce).heap p).addTime
        ((d'.pmipBceDelete bce).heap p).lifetime) = true := by
  intro p remains
  obtain ⟨different, before⟩ := ok.toLmaArmed.remaining member frame remains
  apply ok.kept before (delete_slot frame different)
  rw [delete_heap, frame.others p different]

theorem next (armed : LmaExpiring d')
    (timers : ∀ p ∈ d'.entries, d'.Timed p ∧
      tsisset (tsadd (d'.heap p).addTime (d'.heap p).lifetime) = true) : TimersOk d' :=
  { armed with
    timed := fun p member => (timers p member).1
    due := fun p member => (timers p member).2 }

theorem move (ok : TimersOk d) (epoch : 0 < env.now.tvSec) (memory : d.FindsMemory env info)
    (moved : LmaMove conf env d info d') : TimersOk d' := by
  refine next (ok.toLmaExpiring.move memory moved) fun p member => ?_
  cases moved with
  | ignored => exact ⟨ok.timed p member, ok.due p member⟩
  | @registered updated filled missing asks update reg =>
      have perm := ok.toLmaArmed.joined missing (memory asks missing) update reg
      obtain ⟨_, frame, _⟩ := ok.toLmaOk.admission update reg
      have added := pmipCacheAdd_added conf filled env d.top
      rcases List.mem_cons.mp (perm.mem_iff.mp member) with rfl | before
      · exact ok.registered epoch asks update reg
      · have different : p ≠ d.top := fun here => ok.toHashOk.top_notMem (here ▸ before)
        apply ok.kept before ((added.slots p different).trans (frame.slots p different))
        rw [added.others p different, frame.others p different]
        simp only [admitted, allocated, Function.update_of_ne different]
  | @refreshed bce start updated found asks began update =>
      have frame := frame_refreshed began update
      by_cases here : p = bce
      · rw [here]
        exact ok.refreshed epoch asks began update
      · rw [frame.entries] at member
        exact ok.kept member (frame.slots p here) (frame.others p here)
  | @deregistered bce mid found asks dereg =>
      have present := (cached_some found).1
      have frame := (frame_lmaDereg conf d env bce (some info.seqno)).of_ok dereg
      have gone : bce ∉ (mid.pmipBceDelete bce).entries :=
        (ok.toHashOk.frame_owner (ok.live bce present) frame).delete_notMem
      obtain ⟨timed, due⟩ := ok.delete present frame p member
      have heap : ((mid.pmipBceDelete bce).getMnAddr bce).heap p = (mid.pmipBceDelete bce).heap p :=
        modify_others gone _ p member
      rw [heap]
      exact ⟨timed.same rfl (by rw [heap]) (by rw [heap]), due⟩

theorem tick (ok : TimersOk d) (ticked : LmaTick conf env d d') : TimersOk d' := by
  refine next (ok.toLmaExpiring.tick ticked) fun p member => ?_
  cases ticked with
  | idle => exact ⟨ok.timed p member, ok.due p member⟩
  | @expired bce mid queued dereg =>
      exact ok.delete (ok.armed bce queued) ((frame_popped _ d bce).trans
        ((frame_lmaDereg conf _ env bce none).of_ok dereg)) p member
  | @retransmitted bce _ queued task taken =>
      rw [ok.expires queued] at task
      cases task
  | @popped bce queued odd => exact absurd (ok.expires queued) odd
  | @tunnelExpired mag queued =>
      exact ok.kept member (TQueue.slot_delTask_of_ne _ (by simp)) rfl

end TimersOk

theorem timersOk_init {tun : Tunnels} (idle : tun.tq = TQueue.empty TqElem) (hnp : List MnidHnp) :
    TimersOk (init tun hnp) :=
  { lmaExpiring_init idle hnp with
    timed := by simp [entries, init]
    due := by simp [entries, init] }

/-- The clock is past the epoch, and a new binding finds memory for its hash
node. -/
def KeepsTimers (conf : Conf) (dupBeyond : Nat → Bool) (d : Daemon) : LmaInput → Prop
  | .message m env => 0 < env.now.tvSec ∧ d.FindsMemory env (parsedPbu conf dupBeyond m)
  | .fire _ => True

instance (conf : Conf) (dupBeyond : Nat → Bool) (d : Daemon) (input : LmaInput) :
    Decidable (KeepsTimers conf dupBeyond d input) :=
  match input with
  | .message _ _ => inferInstanceAs (Decidable (_ ∧ _))
  | .fire _ => inferInstanceAs (Decidable True)

theorem lmaStep_timers {conf : Conf} (isLma : conf.mip6Entity = .ha) {dupBeyond : Nat → Bool}
    (d : Daemon) (input : LmaInput) (d' : Daemon) (ok : TimersOk d)
    (keeps : KeepsTimers conf dupBeyond d input)
    (taken : d.lmaStep conf dupBeyond input = .ok d') : TimersOk d' := by
  cases input with
  | message m env =>
      obtain ⟨isSrc, isMag⟩ := parsedPbu_src conf dupBeyond m
      exact ok.move keeps.1 keeps.2 (lmaFsm_move ok.toLmaOk (isMag.trans isSrc.symm) taken)
  | fire env => exact ok.tick (fire_tick isLma taken)

/-- In every run whose registrations find memory for their nodes, the bindings
and the expiry timers correspond to each other at the end. -/
theorem lma_timers_exact (conf : Conf) (isLma : conf.mip6Entity = .ha) (dupBeyond : Nat → Bool)
    (tun : Tunnels) (idle : tun.tq = TQueue.empty TqElem) (hnp : List MnidHnp)
    (inputs : List LmaInput)
    (meets : Meets (lmaStep conf dupBeyond) (KeepsTimers conf dupBeyond) (init tun hnp) inputs)
    (final : Daemon) (finished : run (lmaStep conf dupBeyond) (init tun hnp) inputs = .ok final) :
    final.TimersExact :=
  (run_invariant (lmaStep_timers isLma) (timersOk_init idle hnp) meets finished).exact

/-- A registration and its refresh. -/
theorem lma_timers_exact_refreshed :
    ∃ final, run (lmaStep (confDynamic .ha) fun _ => false) (init Tunnels.init [])
        [.message (bareUpdate 1 10) (Env.ample ⟨100, 0⟩ 10),
          .message (bareUpdate 2 10) (Env.ample ⟨110, 0⟩ 10)] = .ok final ∧
      final.entries = [0] ∧ final.TimersExact := by
  refine ⟨_, rfl, by decide, ?_⟩
  exact lma_timers_exact (confDynamic .ha) rfl (fun _ => false) Tunnels.init rfl []
    [.message (bareUpdate 1 10) (Env.ample ⟨100, 0⟩ 10),
      .message (bareUpdate 2 10) (Env.ample ⟨110, 0⟩ 10)] (by decide) _ rfl

/-- A registration without memory for its hash node: the timer that `lma_reg`
started stays queued for an entry that `pmip_cache_add` did not link. -/
theorem lma_timers_orphaned :
    ¬ ∀ (inputs : List LmaInput) (final : Daemon),
      run (lmaStep (confDynamic .ha) fun _ => false) (init Tunnels.init []) inputs = .ok final →
      final.TimersExact := by
  intro claimed
  have exact := claimed
    [.message (bareUpdate 1 10) { Env.ample ⟨100, 0⟩ 10 with nodeAlloc := false }] _ rfl
  have orphan := exact.2 0 (by decide) (by decide)
  revert orphan
  decide

end OaiPmip.Daemon
