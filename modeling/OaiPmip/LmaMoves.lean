import OaiPmip.CacheOk

/-!
# What one step of the anchor can do

`lmaStep` is one message handed to `pmip_lma_recv_pbu` or one turn of the timer
queue.  The parser takes the serving MAG of a message from its source address,
and an entry is found under its serving MAG, so an update for an existing entry
always comes from the MAG that serves it: the handover branch of `lma_fsm` is
never entered.
-/

set_option autoImplicit false

namespace OaiPmip

open OaiPmip.HashKeys OaiPmip.Msgs OaiPmip.Runs

inductive LmaInput where
  | message (m : Received) (env : Env)
  | fire (env : Env)

def bareUpdate (seqno lifetime : UInt8) : Received where
  mh := fun i => if i = 7 then seqno else if i = 11 then lifetime else 0
  len := 12
  src := ⟨[0, 0, 0, 0, 0, 0, 0, 0, 0, 0, 0, 0, 0, 0, 0, 2], rfl⟩
  dst := in6addrLoopback
  iif := 1

/-- The message as `mh_pbu_parse` leaves it in a cleared `info`. -/
def parsedPbu (conf : Conf) (dupBeyond : Nat → Bool) (m : Received) : MsgInfo :=
  mhPbuParse conf dupBeyond MsgInfo.zero m

theorem parsedPbu_src (conf : Conf) (dupBeyond : Nat → Bool) (m : Received) :
    (parsedPbu conf dupBeyond m).src = m.src ∧ (parsedPbu conf dupBeyond m).mnServMagAddr = m.src := by
  unfold parsedPbu mhPbuParse
  dsimp only
  split
  · exact ⟨rfl, rfl⟩
  · exact ⟨rfl, rfl⟩

/-- An entry after `lma_update_binding_entry`. -/
def PmipEntry.updated (conf : Conf) (info : MsgInfo) (e : PmipEntry) : PmipEntry :=
  { e with
    ourAddr := conf.ourAddress
    mnSuffix := info.mnIid
    mnHwAddress := eui64ToEui48 info.mnIid
    mnNai := info.mnNai
    timestamp := info.timestamp
    mnPrefix := info.mnPrefix
    mnLinkLocalAddr := info.mnLinkLocalAddr
    mnServMagAddr := info.src
    lifetime := ⟨info.lifetime.tvSec, 0⟩
    nRetsCounter := conf.maxMessageRetransmissions
    seqnoIn := info.seqno
    mnAddr := convertId2Addr info.mnPrefix info.mnIid
    link := info.iif }

namespace Daemon

def lmaStep (conf : Conf) (dupBeyond : Nat → Bool) (d : Daemon) : LmaInput → Outcome
  | .message m env => d.pmipLmaRecvPbu conf dupBeyond env m
  | .fire env => d.fire conf env

def Registers (info : MsgInfo) : Prop := info.msgEvent = .hasPBU ∧ info.lifetime.tvSec > 0

instance (info : MsgInfo) : Decidable (Registers info) :=
  inferInstanceAs (Decidable (info.msgEvent = .hasPBU ∧ info.lifetime.tvSec > 0))

def admitted (d : Daemon) (info : MsgInfo) : Daemon :=
  { d.allocated .pmip with
    hnp := HnpCache.pmipInsertIntoHnpCache d.hnp (eui64ToEui48 info.mnIid) info.mnPrefix
      info.mnNai }

def TunnelFault (failure : Crash × Daemon) : Prop :=
  failure.1 = .tableIndex ∨ failure.1 = .assertFailed

def acknowledgements (log : List Effect) : List (In6Addr × Pba) :=
  log.filterMap fun
    | .sendPba _ dst pba _ => some (dst, pba)
    | _ => none

/-- Work that acknowledges nothing and leaves the list of clients alone. -/
structure Unanswered (d d' : Daemon) : Prop where
  clients : d'.clients = d.clients
  answers : acknowledgements d'.log = acknowledgements d.log

section Unanswered
variable (conf : Conf) (d : Daemon) (env : Env) (bce : Nat)

theorem unanswered_tunnelAdd (remote : In6Addr) (link : Int) :
    Ends TunnelFault (Unanswered d) (d.pmipTunnelAdd conf env bce remote link) := by
  simp only [pmipTunnelAdd]
  split
  · rename_i failed
    exact Or.inl (Tunnels.pmipTunnelAdd_crash failed)
  · exact ⟨rfl, rfl⟩

theorem unanswered_lmaRelease : Ends TunnelFault (Unanswered d) (d.lmaRelease conf env bce) := by
  unfold lmaRelease pmipTunnelDel
  dsimp only
  split
  · rename_i failed
    exact Tunnels.pmipTunnelDel_crash failed
  · simp only [lmaRemoveRoute]
    split <;> exact ⟨rfl, rfl⟩

theorem unanswered_lmaCheckPrefix (info : MsgInfo) :
    Ends TunnelFault (Unanswered d) (d.lmaCheckPrefix conf env bce info) := by
  unfold lmaCheckPrefix
  split
  · exact ⟨rfl, rfl⟩
  · dsimp only
    split
    · split
      · exact ⟨rfl, rfl⟩
      · split
        · exact (unanswered_lmaRelease conf _ env bce).imp fun _ _ quiet =>
            ⟨quiet.clients, quiet.answers⟩
        · exact ⟨rfl, rfl⟩
    · exact unanswered_lmaRelease conf d env bce

theorem unanswered_lmaUpdate (info : MsgInfo) :
    Ends TunnelFault (Unanswered d) (d.lmaUpdateBindingEntry conf env bce info) :=
  (unanswered_lmaCheckPrefix conf _ env bce info).bind fun _ _ quiet =>
    ⟨quiet.clients, quiet.answers⟩

theorem unanswered_lmaForward : Unanswered d (d.lmaForward conf bce) := by
  unfold lmaForward lmaSetupRoute
  dsimp only
  split <;> exact ⟨rfl, rfl⟩

end Unanswered

section Procedures
variable {conf : Conf} {d d' : Daemon} {env : Env} {info : MsgInfo} {bce : Nat}

theorem lmaUpdate_entry (update : d.lmaUpdateBindingEntry conf env bce info = .ok d') :
    d'.heap bce = (d.heap bce).updated conf info := by
  simp only [lmaUpdateBindingEntry] at update
  obtain ⟨checked, checks, done⟩ := bind_eq_ok.mp update
  have kept := ((frame_lmaCheckPrefix conf _ env bce info).of_ok checks).entry
  cases done
  simp only [modify, getMnAddr, Function.update_self] at kept ⊢
  -- none of the fields that are not written after the check is the address or the prefix
  let rest : PmipEntry → PmipEntry := fun e =>
    { e.updated conf info with
      ourAddr := e.ourAddr
      mnSuffix := e.mnSuffix
      mnHwAddress := e.mnHwAddress
      mnNai := e.mnNai
      mnAddr := convertId2Addr info.mnPrefix e.mnSuffix }
  have same := congrArg rest kept
  exact same

theorem lmaUpdate_key (update : d.lmaUpdateBindingEntry conf env bce info = .ok d') :
    d'.key bce = ⟨info.mnNai, info.src⟩ := by
  rw [key, lmaUpdate_entry update]
  rfl

theorem lmaReg_mag {first : Daemon} (reg : first.lmaReg conf env bce = .ok d')
    (update : d.lmaUpdateBindingEntry conf env bce info = .ok first) :
    (d'.heap bce).mnServMagAddr = info.src := by
  have kept := congrFun ((frame_lmaReg conf first env bce).of_ok reg).whose.key bce
  exact congrArg PmipKey.magAddress (kept.trans (lmaUpdate_key update))

theorem lmaFirstMag_ok {start : Daemon} (same : info.src = (d.heap bce).mnServMagAddr)
    (began : d.lmaFirstMag conf env info bce = .ok start) :
    info.src = (start.heap bce).mnServMagAddr ∧ (start = d ∨ info.src = in6addrAny ∧
      ∃ first, d.lmaUpdateBindingEntry conf env bce info = .ok first ∧
        first.lmaReg conf env bce = .ok start) := by
  simp only [lmaFirstMag] at began
  split at began
  · rename_i unspecified
    obtain ⟨first, update, reg⟩ := bind_eq_ok.mp began
    exact ⟨(lmaReg_mag reg update).symm, Or.inr ⟨same.trans unspecified, first, update, reg⟩⟩
  · cases began
    exact ⟨same, Or.inl rfl⟩

theorem lmaRefresh_ok (same : info.src = (d.heap bce).mnServMagAddr)
    (taken : d.lmaRefresh conf env info bce = .ok d') :
    ∃ start updated, (start = d ∨ info.src = in6addrAny ∧
        ∃ first, d.lmaUpdateBindingEntry conf env bce info = .ok first ∧
          first.lmaReg conf env bce = .ok start) ∧
      start.lmaUpdateBindingEntry conf env bce info = .ok updated ∧
      d' = updated.lmaRegNoNewTunnel conf env bce := by
  simp only [lmaRefresh] at taken
  obtain ⟨start, began, taken⟩ := bind_eq_ok.mp taken
  have still := lmaFirstMag_ok same began
  rw [if_pos still.1] at taken
  obtain ⟨updated, update, done⟩ := bind_eq_ok.mp taken
  cases done
  exact ⟨start, updated, still.2, update, rfl⟩

theorem frame_lmaFirstMag :
    Frame (fun e => e.type) bce d (reached (d.lmaFirstMag conf env info bce)) := by
  simp only [lmaFirstMag]
  split
  · refine Frame.bind (frame_lmaUpdateBindingEntry conf d env bce info) fun first _ => ?_
    exact (frame_lmaReg conf first env bce).typed
  · exact Frame.refl _ bce d

theorem frame_lmaRefresh (same : info.src = (d.heap bce).mnServMagAddr) :
    Frame (fun e => e.type) bce d (reached (d.lmaRefresh conf env info bce)) := by
  simp only [lmaRefresh]
  refine Frame.bind frame_lmaFirstMag fun start began => ?_
  rw [if_pos (lmaFirstMag_ok same began).1]
  refine Frame.bind (frame_lmaUpdateBindingEntry conf start env bce info) fun updated _ => ?_
  exact (frame_lmaRegNoNewTunnel conf updated env bce).binding.kind

end Procedures

/-! ## The moves -/

structure LmaOk (d : Daemon) : Prop extends HashOk d where
  types : ∀ bce ∈ d.entries, (d.heap bce).type = .pmip

theorem LmaOk.cachedType_eq {d : Daemon} (ok : LmaOk d) (mnNai : Nai) (magAddr : In6Addr) :
    d.cachedType mnNai magAddr =
      if (d.cached mnNai magAddr).isSome then .pmip else .noEntry := by
  simp only [cachedType]
  cases found : d.cached mnNai magAddr with
  | none => rfl
  | some bce => exact ok.types bce (cached_some found).1

theorem cached_mag {d : Daemon} {info : MsgInfo} {bce : Nat}
    (found : d.cached info.mnNai info.src = some bce) :
    info.src = (d.heap bce).mnServMagAddr := by
  have isKey := (cached_some found).2
  exact (congrArg PmipKey.magAddress isKey).symm

theorem LmaOk.lmaFsm_eq {d : Daemon} (ok : LmaOk d) (conf : Conf) (env : Env) {info : MsgInfo}
    (fromMag : info.mnServMagAddr = info.src) :
    d.lmaFsm conf env info =
      match d.cached info.mnNai info.src with
      | none => d.lmaNoEntry conf env info
      | some bce =>
          if Registers info then
            d.lmaRefresh conf env info bce >>= fun next => pure (next.getMnAddr bce)
          else if info.msgEvent = .hasPBU ∧ info.lifetime.tvSec = 0 ∧ info.lifetime.tvNsec = 0 then
            d.lmaDereg conf env bce (some info.seqno) >>= fun mid =>
              pure ((mid.pmipBceDelete bce).getMnAddr bce)
          else .error (.nullEntry, d) := by
  simp only [lmaFsm]
  rw [ok.toHashOk.exists_eq, ok.cachedType_eq, fromMag]
  cases found : d.cached info.mnNai info.src with
  | none => rfl
  | some bce =>
      have got : d.getEntry info.mnNai info.src = .ok (d, bce) := by
        simp only [getEntry]
        rw [ok.toHashOk.get_eq, found]
      have deregister : d.lmaDeregister conf env info bce =
          d.lmaDereg conf env bce (some info.seqno) >>= fun mid =>
            pure (mid.pmipBceDelete bce) := by
        simp only [lmaDeregister]
        rw [if_pos (cached_mag found)]
      simp only [Option.isSome_some, if_true, lmaPmip, fromMag, got, ok_bind, deregister,
        bind_assoc, pure_bind]
      rfl

end Daemon

open Daemon

/-- What `lma_fsm` can come to. -/
inductive LmaMove (conf : Conf) (env : Env) (d : Daemon) (info : MsgInfo) : Daemon → Prop where
  | ignored (missing : d.cached info.mnNai info.src = none)
      (idle : Registers info → env.entryAlloc = false) : LmaMove conf env d info d
  | registered {updated registered : Daemon} (missing : d.cached info.mnNai info.src = none)
      (asks : Registers info)
      (update : (d.admitted info).lmaUpdateBindingEntry conf env d.top info = .ok updated)
      (reg : updated.lmaReg conf env d.top = .ok registered) :
      LmaMove conf env d info (registered.pmipCacheAdd conf env d.top)
  | refreshed {bce : Nat} {start updated : Daemon}
      (found : d.cached info.mnNai info.src = some bce) (asks : Registers info)
      (began : start = d ∨ info.src = in6addrAny ∧
        ∃ first, d.lmaUpdateBindingEntry conf env bce info = .ok first ∧
          first.lmaReg conf env bce = .ok start)
      (update : start.lmaUpdateBindingEntry conf env bce info = .ok updated) :
      LmaMove conf env d info ((updated.lmaRegNoNewTunnel conf env bce).getMnAddr bce)
  | deregistered {bce : Nat} {mid : Daemon} (found : d.cached info.mnNai info.src = some bce)
      (asks : ¬ Registers info)
      (dereg : d.lmaDereg conf env bce (some info.seqno) = .ok mid) :
      LmaMove conf env d info ((mid.pmipBceDelete bce).getMnAddr bce)

/-- What one turn of the timer queue can come to on the anchor. -/
inductive LmaTick (conf : Conf) (env : Env) (d : Daemon) : Daemon → Prop where
  | idle : LmaTick conf env d d
  | expired {bce : Nat} {mid : Daemon} (queued : .bce bce ∈ d.tun.tq.list)
      (dereg : (d.popped (.bce bce)).lmaDereg conf env bce none = .ok mid) :
      LmaTick conf env d (mid.pmipBceDelete bce)
  | retransmitted {bce : Nat} {d' : Daemon} (queued : .bce bce ∈ d.tun.tq.list)
      (task : d.tun.tq.task (.bce bce) = some .retransPbu)
      (taken : (d.popped (.bce bce)).pmipTimerRetransPbuHandler conf env bce = .ok d') :
      LmaTick conf env d d'
  | popped {bce : Nat} (queued : .bce bce ∈ d.tun.tq.list)
      (odd : d.tun.tq.task (.bce bce) ≠ some .bceExpired) :
      LmaTick conf env d (d.popped (.bce bce))
  | tunnelExpired {mag : Fin pmipMaxMags} (queued : .tunnel mag ∈ d.tun.tq.list) :
      LmaTick conf env d { d with
        tun := (d.popped (.tunnel mag)).tun.pmipTimerTunnelExpiredHandler mag }

namespace Daemon

section Moves
variable {conf : Conf} {d d' : Daemon} {env : Env} {info : MsgInfo}

theorem lmaNoEntry_move (missing : d.cached info.mnNai info.src = none)
    (taken : d.lmaNoEntry conf env info = .ok d') : LmaMove conf env d info d' := by
  simp only [lmaNoEntry] at taken
  split at taken
  · rename_i asks
    rw [pmipCacheAlloc_eq] at taken
    cases isAllocated : env.entryAlloc with
    | false =>
        simp only [isAllocated, Bool.false_eq_true, if_false] at taken
        cases taken
        exact LmaMove.ignored missing fun _ => isAllocated
    | true =>
        simp only [isAllocated, if_true] at taken
        obtain ⟨updated, update, taken⟩ := bind_eq_ok.mp taken
        obtain ⟨registered, reg, taken⟩ := bind_eq_ok.mp taken
        cases taken
        exact LmaMove.registered missing asks update reg
  · rename_i idle
    cases taken
    exact LmaMove.ignored missing fun asks => absurd asks idle

theorem lmaFsm_move (ok : LmaOk d) (fromMag : info.mnServMagAddr = info.src)
    (taken : d.lmaFsm conf env info = .ok d') : LmaMove conf env d info d' := by
  rw [ok.lmaFsm_eq conf env fromMag] at taken
  cases found : d.cached info.mnNai info.src with
  | none =>
      rw [found] at taken
      exact lmaNoEntry_move found taken
  | some bce =>
      rw [found] at taken
      dsimp only at taken
      split at taken
      · rename_i asks
        obtain ⟨next, refresh, done⟩ := bind_eq_ok.mp taken
        cases done
        obtain ⟨start, updated, began, update, rfl⟩ := lmaRefresh_ok (cached_mag found) refresh
        exact LmaMove.refreshed found asks began update
      · rename_i idle
        split at taken
        · obtain ⟨mid, dereg, done⟩ := bind_eq_ok.mp taken
          cases done
          exact LmaMove.deregistered found idle dereg
        · cases taken

theorem fire_tick (isLma : conf.mip6Entity = .ha) (taken : d.fire conf env = .ok d') :
    LmaTick conf env d d' := by
  simp only [fire] at taken
  cases isPopped : d.tun.tq.runner env.now with
  | none =>
      rw [isPopped] at taken
      cases taken
      exact LmaTick.idle
  | some pair =>
      obtain ⟨element, tq⟩ := pair
      obtain ⟨queued, rfl⟩ := TQueue.runner_some isPopped
      simp only [isPopped] at taken
      cases element with
      | tunnel mag =>
          cases taken
          exact LmaTick.tunnelExpired queued
      | bce bce =>
          simp only [TQueue.delTask_task] at taken
          split at taken
          · rename_i task
            exact LmaTick.retransmitted queued task taken
          · simp only [pmipTimerBceExpiredHandler] at taken
            rw [isLma] at taken
            obtain ⟨mid, dereg, done⟩ := bind_eq_ok.mp taken
            cases done
            exact LmaTick.expired queued dereg
          · rename_i odd
            cases taken
            exact LmaTick.popped queued odd

end Moves

/-! ## The cache along a run -/

section Refreshed
variable {conf : Conf} {d start updated : Daemon} {env : Env} {info : MsgInfo} {bce : Nat}

theorem frame_refreshed
    (began : start = d ∨ info.src = in6addrAny ∧
      ∃ first, d.lmaUpdateBindingEntry conf env bce info = .ok first ∧
        first.lmaReg conf env bce = .ok start)
    (update : start.lmaUpdateBindingEntry conf env bce info = .ok updated) :
    Frame (fun e => e.type) bce d ((updated.lmaRegNoNewTunnel conf env bce).getMnAddr bce) := by
  have starts : Frame (fun e => e.type) bce d start := by
    rcases began with rfl | ⟨_, first, firstUpdate, reg⟩
    · exact Frame.refl _ bce start
    · apply ((frame_lmaUpdateBindingEntry conf d env bce info).of_ok firstUpdate).trans
      exact ((frame_lmaReg conf first env bce).of_ok reg).typed
  apply (starts.trans ((frame_lmaUpdateBindingEntry conf start env bce info).of_ok update)).trans
  exact ((frame_lmaRegNoNewTunnel conf updated env bce).binding.trans (frame_getMnAddr _ bce)).kind

theorem refreshed_entry (update : start.lmaUpdateBindingEntry conf env bce info = .ok updated) :
    (((updated.lmaRegNoNewTunnel conf env bce).getMnAddr bce).heap bce).untunnelled =
      ((start.heap bce).updated conf info).untunnelled := by
  have answers : Frame PmipEntry.untunnelled bce updated
      ((updated.lmaRegNoNewTunnel conf env bce).getMnAddr bce) :=
    (frame_lmaRegNoNewTunnel conf updated env bce).untunnelled.trans (frame_modify _ _ bce _ rfl)
  rw [answers.entry, lmaUpdate_entry update]

theorem refreshed_key (update : start.lmaUpdateBindingEntry conf env bce info = .ok updated) :
    ((updated.lmaRegNoNewTunnel conf env bce).getMnAddr bce).key bce = ⟨info.mnNai, info.src⟩ := by
  have entry := refreshed_entry update
  have isNai := congrArg PmipEntry.mnNai entry
  have isMag := congrArg PmipEntry.mnServMagAddr entry
  simp only [PmipEntry.untunnelled, PmipEntry.content] at isNai isMag
  simp only [key, PmipEntry.key, isNai, isMag]
  rfl

end Refreshed

theorem lmaOk_init (tun : Tunnels) (hnp : List MnidHnp)
    (unarmed : ∀ bce, .bce bce ∉ tun.tq.list) : LmaOk (init tun hnp) :=
  { hashOk_init tun hnp unarmed with types := by simp [entries, init] }

theorem modify_others {d : Daemon} {bce : Nat} (outside : bce ∉ d.entries)
    (write : PmipEntry → PmipEntry) : ∀ p ∈ d.entries, (d.modify bce write).heap p = d.heap p := by
  intro p member
  have different : p ≠ bce := fun here => outside (here ▸ member)
  simp only [modify, Function.update_of_ne different]

namespace LmaOk

variable {conf : Conf} {d d' : Daemon} {env : Env} {info : MsgInfo}

theorem frame {bce : Nat} (ok : LmaOk d) (isLive : d.live bce = true)
    (same : bce ∈ d.entries → d'.key bce = d.key bce)
    (frame : Frame (fun e => e.type) bce d d') : LmaOk d' :=
  { ok.toHashOk.frame isLive same frame with
    types := by
      intro p member
      rw [frame.entries] at member
      by_cases here : p = bce
      · rw [here, frame.entry]
        exact ok.types bce (here ▸ member)
      · rw [frame.others p here]
        exact ok.types p member }

theorem delete {bce : Nat} (ok : LmaOk d) (isLive : d.live bce = true)
    (frame : Frame PmipEntry.owner bce d d') : LmaOk (d'.pmipBceDelete bce) := by
  have worked := ok.toHashOk.frame_owner isLive frame
  refine { worked.delete bce with types := fun p member => ?_ }
  have different : p ≠ bce := by
    intro same
    subst same
    exact worked.delete_notMem member
  rw [delete_heap, frame.others p different]
  exact ok.types p (frame.entries ▸ delete_entries_subset d' bce p member)

theorem modify_outside {bce : Nat} (ok : LmaOk d) (outside : bce ∉ d.entries)
    (write : PmipEntry → PmipEntry) : LmaOk (d.modify bce write) := by
  have kept := modify_others outside write
  have keys : ∀ p ∈ d.entries, (d.modify bce write).key p = d.key p := by
    intro p member
    simp only [Daemon.key, kept p member]
  constructor
  · constructor
    · intro b p member
      rw [keys p ((ChainTable.mem_toList d.hash p).mpr ⟨b, member⟩)]
      exact ok.placed b p member
    · change (d.entries.map _).Nodup
      rw [List.map_congr_left keys]
      exact ok.keys
    · exact ok.live
    · exact ok.below
    · exact ok.queued
  · intro p member
    rw [kept p member]
    exact ok.types p member

/-- The new binding, filled in and registered but not in the cache yet. -/
theorem admission (ok : LmaOk d) {updated registered : Daemon}
    (update : (d.admitted info).lmaUpdateBindingEntry conf env d.top info = .ok updated)
    (reg : updated.lmaReg conf env d.top = .ok registered) :
    HashOk registered ∧ Frame (fun e => e.type) d.top (d.admitted info) registered ∧
      registered.key d.top = ⟨info.mnNai, info.src⟩ := by
  have admitted : HashOk (d.admitted info) := { ok.toHashOk.allocated .pmip with }
  have isLive : (d.admitted info).live d.top = true := by simp [Daemon.admitted, allocated]
  have updates := (frame_lmaUpdateBindingEntry conf (d.admitted info) env d.top info).of_ok update
  have registers := (frame_lmaReg conf updated env d.top).of_ok reg
  have whole := updates.trans registers.typed
  refine ⟨admitted.frame isLive (fun member => absurd member ok.toHashOk.top_notMem) whole,
    whole, ?_⟩
  rw [registers.whose.key]
  exact lmaUpdate_key update

theorem registered (ok : LmaOk d) (missing : d.cached info.mnNai info.src = none)
    {updated registered : Daemon}
    (update : (d.admitted info).lmaUpdateBindingEntry conf env d.top info = .ok updated)
    (reg : updated.lmaReg conf env d.top = .ok registered) :
    d.top ∉ d.entries ∧ registered.entries = d.entries ∧
      (∀ p ∈ d.entries, registered.heap p = d.heap p) ∧
      registered.key d.top ∉ registered.entries.map registered.key := by
  obtain ⟨_, frame, isKey⟩ := ok.admission update reg
  have entries : registered.entries = d.entries := frame.entries
  have old : ∀ p ∈ d.entries, registered.heap p = d.heap p := by
    intro p member
    have different : p ≠ d.top := fun here => ok.toHashOk.top_notMem (here ▸ member)
    rw [frame.others p different]
    simp only [admitted, allocated, Function.update_of_ne different]
  refine ⟨ok.toHashOk.top_notMem, entries, old, ?_⟩
  rw [isKey, entries]
  intro present
  obtain ⟨p, member, same⟩ := List.mem_map.mp present
  simp only [Daemon.key, old p member] at same
  exact ok.toHashOk.cached_none missing p member same

theorem move (ok : LmaOk d) (moved : LmaMove conf env d info d') : LmaOk d' := by
  cases moved with
  | ignored => exact ok
  | @registered updated filled missing asks update reg =>
      obtain ⟨hashed, frame, _⟩ := ok.admission update reg
      obtain ⟨notMem, entries, old, new⟩ := ok.registered missing update reg
      have added := pmipCacheAdd_added conf filled env d.top
      have isLive : filled.live d.top = true := by
        rw [frame.live]
        simp [admitted, allocated]
      refine { hashed.added isLive (fun _ => new) added with types := fun p member => ?_ }
      have content := congrArg PmipEntry.type added.entry
      rcases added.mem_entries p member with rfl | before
      · have isNew : (filled.heap d.top).type = .pmip := by
          rw [frame.entry]
          simp [admitted, allocated, PmipEntry.blank]
        exact content.trans isNew
      · rw [entries] at before
        have different : p ≠ d.top := fun here => notMem (here ▸ before)
        rw [added.others p different, old p before]
        exact ok.types p before
  | @refreshed bce start updated found asks began update =>
      obtain ⟨member, isKey⟩ := cached_some found
      refine ok.frame (ok.live bce member) (fun _ => ?_) (frame_refreshed began update)
      rw [refreshed_key update, isKey]
  | @deregistered bce mid found asks dereg =>
      have member := (cached_some found).1
      have frame := (frame_lmaDereg conf d env bce (some info.seqno)).of_ok dereg
      have isLive := ok.live bce member
      have gone : bce ∉ (mid.pmipBceDelete bce).entries :=
        (ok.toHashOk.frame_owner isLive frame).delete_notMem
      exact (ok.delete isLive frame).modify_outside gone _

theorem deregistered_cached (ok : LmaOk d) {bce : Nat} {mid : Daemon} {mnNai : Nai}
    {magAddr : In6Addr} (found : d.cached mnNai magAddr = some bce)
    (frame : Frame PmipEntry.owner bce d mid) :
    ((mid.pmipBceDelete bce).getMnAddr bce).cached mnNai magAddr = none := by
  obtain ⟨member, isKey⟩ := cached_some found
  have gone : bce ∉ (mid.pmipBceDelete bce).entries :=
    (ok.toHashOk.frame_owner (ok.live bce member) frame).delete_notMem
  by_contra remains
  obtain ⟨p, cached⟩ := Option.ne_none_iff_exists'.mp remains
  obtain ⟨present, sameKey⟩ := cached_some cached
  have different : p ≠ bce := fun here => gone (here ▸ present)
  have before : p ∈ d.entries := frame.entries ▸ delete_entries_subset mid bce p present
  have isP : d.key p = ⟨mnNai, magAddr⟩ := by
    rw [← frame.key, ← sameKey]
    simp only [Daemon.key, getMnAddr, modify, Function.update_of_ne different, delete_heap]
  exact different (ok.toHashOk.key_injective before member (isP.trans isKey.symm))

theorem tick (ok : LmaOk d) (ticked : LmaTick conf env d d') : LmaOk d' := by
  have pops : ∀ bce, .bce bce ∈ d.tun.tq.list → LmaOk (d.popped (.bce bce)) := by
    intro bce queued
    exact ok.frame (ok.queued bce queued) (fun _ => rfl) (frame_popped _ d bce)
  cases ticked with
  | idle => exact ok
  | @expired bce mid queued dereg =>
      have isLive := ok.queued bce queued
      exact ok.delete isLive ((frame_popped _ d bce).trans
        ((frame_lmaDereg conf _ env bce none).of_ok dereg))
  | @retransmitted bce _ queued task taken =>
      have isLive := ok.queued bce queued
      rcases retransPbu_cases taken with ⟨_, rfl⟩ | ⟨pbu, _, frame, _⟩
      · exact ok.delete isLive (frame_popped _ d bce)
      · exact (pops bce queued).frame isLive (fun _ => by rw [frame.owner.key])
          frame.kind
  | @popped bce queued odd => exact pops bce queued
  | @tunnelExpired mag queued =>
      have before : ∀ bce, .bce bce ∈ (d.tun.tq.delTask (.tunnel mag)).list →
          .bce bce ∈ d.tun.tq.list := fun bce remains =>
        ((TQueue.mem_delTask _ _ _).mp remains).1
      exact {
        placed := ok.placed
        keys := ok.keys
        live := ok.live
        below := ok.below
        queued := fun bce remains => ok.queued bce (before bce remains)
        types := ok.types }

end LmaOk

/-- A registration arms the timer of its entry before the entry is linked, so that
every queued timer belongs to a binding as long as there is memory for the
nodes. -/
structure LmaArmed (d : Daemon) : Prop extends LmaOk d where
  armed : ∀ bce, .bce bce ∈ d.tun.tq.list → bce ∈ d.entries

def FindsMemory (d : Daemon) (env : Env) (info : MsgInfo) : Prop :=
  Registers info → d.cached info.mnNai info.src = none → env.nodeAlloc = true

instance (d : Daemon) (env : Env) (info : MsgInfo) : Decidable (d.FindsMemory env info) :=
  inferInstanceAs (Decidable (_ → _ → _))

namespace LmaArmed

variable {conf : Conf} {d d' : Daemon} {env : Env} {info : MsgInfo}

theorem removed (ok : LmaArmed d) {bce : Nat} (member : bce ∈ d.entries)
    (frame : Frame PmipEntry.owner bce d d') :
    d.entries.Perm (bce :: (d'.pmipBceDelete bce).entries) := by
  rw [← frame.entries]
  exact (ok.toHashOk.frame_owner (ok.live bce member) frame).delete_entries
    (frame.entries ▸ member)

theorem delete (ok : LmaArmed d) {bce : Nat} (member : bce ∈ d.entries)
    (frame : Frame PmipEntry.owner bce d d') : LmaArmed (d'.pmipBceDelete bce) := by
  refine { ok.toLmaOk.delete (ok.live bce member) frame with armed := ?_ }
  intro p queued
  obtain ⟨before, different⟩ := (delete_queued d' bce p).mp queued
  have earlier := (frame.queued p before).resolve_left different
  have present := (ok.removed member frame).mem_iff.mp (ok.armed p earlier)
  exact (List.mem_cons.mp present).resolve_left different

theorem frame (ok : LmaArmed d) {bce : Nat} (member : bce ∈ d.entries)
    (same : d'.key bce = d.key bce) (frame : Frame (fun e => e.type) bce d d') : LmaArmed d' := by
  refine { ok.toLmaOk.frame (ok.live bce member) (fun _ => same) frame with armed := ?_ }
  intro p queued
  rw [frame.entries]
  rcases frame.queued p queued with rfl | before
  · exact member
  · exact ok.armed p before

theorem joined (ok : LmaArmed d) (missing : d.cached info.mnNai info.src = none)
    (memory : env.nodeAlloc = true) {updated filled : Daemon}
    (update : (d.admitted info).lmaUpdateBindingEntry conf env d.top info = .ok updated)
    (reg : updated.lmaReg conf env d.top = .ok filled) :
    (filled.pmipCacheAdd conf env d.top).entries.Perm (d.top :: d.entries) := by
  obtain ⟨_, entries, _, new⟩ := ok.toLmaOk.registered missing update reg
  have perm := ((pmipCacheAdd_added conf filled env d.top).entries_perm new memory).1
  rw [entries] at perm
  exact perm

theorem move (ok : LmaArmed d) (memory : d.FindsMemory env info)
    (moved : LmaMove conf env d info d') : LmaArmed d' := by
  have next := ok.toLmaOk.move moved
  cases moved with
  | ignored => exact ok
  | @registered updated filled missing asks update reg =>
      have perm := ok.joined missing (memory asks missing) update reg
      obtain ⟨_, frame, _⟩ := ok.toLmaOk.admission update reg
      refine { next with armed := ?_ }
      intro p queued
      rw [perm.mem_iff, List.mem_cons]
      rcases (pmipCacheAdd_added conf filled env d.top).queued p queued with here | before
      · exact Or.inl here
      · rcases frame.queued p before with here | earlier
        · exact Or.inl here
        · exact Or.inr (ok.armed p earlier)
  | @refreshed bce start updated found asks began update =>
      obtain ⟨member, isKey⟩ := cached_some found
      exact ok.frame member ((refreshed_key update).trans isKey.symm) (frame_refreshed began update)
  | @deregistered bce mid found asks dereg =>
      have member := (cached_some found).1
      have whole := ok.delete member ((frame_lmaDereg conf d env bce (some info.seqno)).of_ok dereg)
      exact { next with armed := whole.armed }

theorem tick (ok : LmaArmed d) (ticked : LmaTick conf env d d') : LmaArmed d' := by
  have next := ok.toLmaOk.tick ticked
  cases ticked with
  | idle => exact ok
  | @expired bce mid queued dereg =>
      exact ok.delete (ok.armed bce queued) ((frame_popped _ d bce).trans
        ((frame_lmaDereg conf _ env bce none).of_ok dereg))
  | @retransmitted bce _ queued task taken =>
      have member := ok.armed bce queued
      rcases retransPbu_cases taken with ⟨_, rfl⟩ | ⟨pbu, _, work, _⟩
      · exact ok.delete member (frame_popped _ d bce)
      · have whole := (frame_popped PmipEntry.binding d bce).trans work
        exact ok.frame member (congrFun whole.owner.key bce) whole.kind
  | @popped bce queued odd =>
      exact { next with
        armed := fun p remains => ok.armed p ((TQueue.mem_delTask _ _ _).mp remains).1 }
  | @tunnelExpired mag queued =>
      exact { next with
        armed := fun p remains => ok.armed p ((TQueue.mem_delTask _ _ _).mp remains).1 }

end LmaArmed

theorem lmaArmed_init (tun : Tunnels) (hnp : List MnidHnp)
    (unarmed : ∀ bce, .bce bce ∉ tun.tq.list) : LmaArmed (init tun hnp) :=
  { lmaOk_init tun hnp unarmed with armed := fun bce queued => absurd queued (unarmed bce) }

theorem lmaStep_ok {conf : Conf} (isLma : conf.mip6Entity = .ha) {dupBeyond : Nat → Bool}
    (d : Daemon) (input : LmaInput) (d' : Daemon) (ok : LmaOk d)
    (taken : d.lmaStep conf dupBeyond input = .ok d') : LmaOk d' := by
  cases input with
  | message m env =>
      obtain ⟨isSrc, isMag⟩ := parsedPbu_src conf dupBeyond m
      exact ok.move (lmaFsm_move ok (isMag.trans isSrc.symm) taken)
  | fire env => exact ok.tick (fire_tick isLma taken)

theorem lmaRun_ok {conf : Conf} (isLma : conf.mip6Entity = .ha) {dupBeyond : Nat → Bool}
    {tun : Tunnels} {hnp : List MnidHnp} (unarmed : ∀ bce, .bce bce ∉ tun.tq.list)
    {inputs : List LmaInput} {d : Daemon}
    (finished : run (lmaStep conf dupBeyond) (init tun hnp) inputs = .ok d) : LmaOk d :=
  run_invariant (fun d input d' ok _ taken => lmaStep_ok isLma d input d' ok taken)
    (lmaOk_init tun hnp unarmed) (meets_always (fun _ _ => trivial) inputs _) finished

end Daemon

end OaiPmip
