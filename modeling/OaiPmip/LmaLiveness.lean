import OaiPmip.LmaMoves

/-!
# Which entries the anchor uses

`lma_fsm` ends its case for a registered node with `get_mn_addr(bce)`.  When the
update deregistered the node the entry is released by then, and when the message
was no update `bce` was never set.  In every reachable state a message is
handled without a null or released entry exactly when it is a registration or
names no registered node, unless the call ends before that statement.
-/

set_option autoImplicit false

namespace OaiPmip

open OaiPmip.HashKeys OaiPmip.Msgs OaiPmip.Runs

/-! ## Calls that read no null entry -/

theorem ClientRoutes.addMagToClient_crash {mags : List In6Addr} {mag : In6Addr} {alloc : Bool}
    {crash : Crash} (failed : addMagToClient mags mag alloc = .error crash) :
    crash ≠ .nullEntry := by
  simp only [addMagToClient] at failed
  split at failed
  · cases failed
  · split at failed
    · cases failed
    · cases failed
      simp

namespace Daemon

def NonNull (outcome : Outcome) : Prop := ∀ d', outcome ≠ .error (.nullEntry, d')

theorem NonNull.bind {x : Outcome} {f : Daemon → Outcome} (before : NonNull x)
    (after : ∀ d, NonNull (f d)) : NonNull (x >>= f) := by
  cases x with
  | ok next => exact after next
  | error failure => exact before

theorem nonNull_pure (d : Daemon) : NonNull (pure d) := fun _ same => by cases same

section NonNull
variable (conf : Conf) (d : Daemon) (env : Env) (bce : Nat) (info : MsgInfo)

theorem nonNull_tunnelAdd (remote : In6Addr) (link : Int) :
    NonNull (d.pmipTunnelAdd conf env bce remote link) := by
  simp only [pmipTunnelAdd]
  split
  · rename_i failed
    intro d' same
    cases same
    cases Tunnels.pmipTunnelAdd_crash failed
  · exact nonNull_pure _

theorem nonNull_tunnelDel : NonNull (d.pmipTunnelDel conf env bce) := by
  unfold pmipTunnelDel
  dsimp only
  split
  · rename_i failed
    intro d' same
    cases same
    rcases Tunnels.pmipTunnelDel_crash failed with isIndex | isAssert
    · cases isIndex
    · cases isAssert
  · exact nonNull_pure _

theorem nonNull_addClientRoute (nai : Nai) (mag : In6Addr) :
    NonNull (d.addClientRoute env nai mag) := by
  simp only [addClientRoute]
  split
  · exact nonNull_pure _
  · rename_i failed
    intro d' same
    cases same
    simp only [ClientRoutes.addClientRoute] at failed
    split at failed
    · split at failed
      · cases failed
      · rename_i unadded
        cases failed
        exact ClientRoutes.addMagToClient_crash unadded rfl
    · split at failed
      · split at failed
        · cases failed
        · rename_i unadded
          cases failed
          exact ClientRoutes.addMagToClient_crash unadded rfl
      · cases failed

theorem nonNull_lmaReg : NonNull (d.lmaReg conf env bce) := by
  simp only [lmaReg]
  apply (nonNull_tunnelAdd conf _ env bce _ _).bind
  intro next
  apply (nonNull_addClientRoute _ env _ _).bind
  intro routed
  exact nonNull_pure _

theorem nonNull_lmaRelease : NonNull (d.lmaRelease conf env bce) := nonNull_tunnelDel conf _ env bce

theorem nonNull_lmaUpdate : NonNull (d.lmaUpdateBindingEntry conf env bce info) := by
  simp only [lmaUpdateBindingEntry]
  apply NonNull.bind
  · unfold lmaCheckPrefix
    split
    · exact nonNull_pure _
    · split
      · dsimp only
        split
        · exact nonNull_pure _
        · split
          · exact nonNull_lmaRelease conf _ env bce
          · exact nonNull_pure _
      · exact nonNull_lmaRelease conf _ env bce
  · exact fun checked => nonNull_pure _

theorem nonNull_lmaFirstMag : NonNull (d.lmaFirstMag conf env info bce) := by
  simp only [lmaFirstMag]
  split
  · exact (nonNull_lmaUpdate conf d env bce info).bind fun first => nonNull_lmaReg conf first env bce
  · exact nonNull_pure _

end NonNull

/-! ## The cases of lma_fsm -/

def EntrySafe (d : Daemon) (outcome : Outcome) : Prop :=
  NonNull outcome ∧ (reached outcome).freedUses = d.freedUses

section Cases
variable {conf : Conf} {d : Daemon} {env : Env} {info : MsgInfo}

theorem nonNull_lmaRefresh {bce : Nat} (same : info.src = (d.heap bce).mnServMagAddr) :
    NonNull (d.lmaRefresh conf env info bce) := by
  intro d' failed
  simp only [lmaRefresh] at failed
  cases began : d.lmaFirstMag conf env info bce with
  | error failure =>
      rw [began] at failed
      cases failed
      exact nonNull_lmaFirstMag conf d env bce info d' began
  | ok start =>
      have still := (lmaFirstMag_ok same began).1
      rw [began] at failed
      simp only [bind, Except.bind, if_pos still] at failed
      exact ((nonNull_lmaUpdate conf start env bce info).bind fun updated =>
        nonNull_pure (updated.lmaRegNoNewTunnel conf env bce)) d' failed

theorem entrySafe_refresh (ok : LmaOk d) {bce : Nat}
    (found : d.cached info.mnNai info.src = some bce) :
    EntrySafe d (d.lmaRefresh conf env info bce >>= fun next => pure (next.getMnAddr bce)) := by
  have serving := cached_mag found
  have frame : Frame (fun e => e.type) bce d
      (reached (d.lmaRefresh conf env info bce >>= fun next => pure (next.getMnAddr bce))) :=
    (frame_lmaRefresh serving).bind fun next _ => (frame_getMnAddr next bce).kind
  exact ⟨(nonNull_lmaRefresh serving).bind fun next => nonNull_pure _,
    frame.freed (ok.live bce (cached_some found).1) ok.live⟩

theorem entrySafe_noEntry (ok : LmaOk d) : EntrySafe d (d.lmaNoEntry conf env info) := by
  simp only [lmaNoEntry]
  split
  · rw [pmipCacheAlloc_eq]
    cases isAllocated : env.entryAlloc with
    | false =>
        simp only [Bool.false_eq_true, if_false]
        exact ⟨nonNull_pure d, rfl⟩
    | true =>
        simp only [if_true]
        have admitted : HashOk (d.admitted info) := { ok.toHashOk.allocated .pmip with }
        have isLive : (d.admitted info).live d.top = true := by simp [Daemon.admitted, allocated]
        have begins : (d.admitted info).freedUses = d.freedUses := rfl
        have updates := frame_lmaUpdateBindingEntry conf (d.admitted info) env d.top info
        constructor
        · apply (nonNull_lmaUpdate conf _ env d.top info).bind
          intro updated
          exact (nonNull_lmaReg conf updated env d.top).bind fun _ => nonNull_pure _
        · change (reached ((d.admitted info).lmaUpdateBindingEntry conf env d.top info >>=
            fun updated => updated.lmaReg conf env d.top >>= fun registered =>
              pure (registered.pmipCacheAdd conf env d.top))).freedUses = _
          cases update : (d.admitted info).lmaUpdateBindingEntry conf env d.top info with
          | error failure =>
              rw [update] at updates
              exact (updates.freed isLive admitted.live).trans begins
          | ok updated =>
              have toUpdated := updates.of_ok update
              have registers := frame_lmaReg conf updated env d.top
              have whole := toUpdated.trans registers.typed
              cases reg : updated.lmaReg conf env d.top with
              | error failure =>
                  rw [reg] at whole
                  simp only [bind, Except.bind, reg]
                  exact (whole.freed isLive admitted.live).trans begins
              | ok registered =>
                  have toRegistered := whole.of_ok reg
                  have added := pmipCacheAdd_added conf registered env d.top
                  have stillLive : registered.live d.top = true := by
                    rw [toRegistered.live]
                    exact isLive
                  simp only [bind, Except.bind, reg]
                  change (registered.pmipCacheAdd conf env d.top).freedUses = _
                  rw [added.freed stillLive (by
                    rw [toRegistered.entries, toRegistered.live]
                    exact admitted.live), toRegistered.freed isLive admitted.live]
                  exact begins
  · exact ⟨nonNull_pure d, rfl⟩

theorem deregister_freedUses {bce : Nat} {mid : Daemon} (frame : Frame PmipEntry.owner bce d mid)
    (isLive : d.live bce = true) (allLive : ∀ q ∈ d.entries, d.live q = true) (hashed : HashOk mid) :
    ((mid.pmipBceDelete bce).getMnAddr bce).freedUses = bce :: d.freedUses := by
  have stillLive : mid.live bce = true := by
    rw [frame.live]
    exact isLive
  have released : (mid.pmipBceDelete bce).live bce = false := by simp [delete_live]
  simp only [getMnAddr, modify, touch, List.filter_cons, released, Bool.not_false, if_true,
    List.filter_nil, List.cons_append, List.nil_append, hashed.delete_freed stillLive,
    frame.freed isLive allLive]

end Cases

def SparesEntries (conf : Conf) (dupBeyond : Nat → Bool) (d : Daemon) (m : Received) : Prop :=
  d.cachedType (parsedPbu conf dupBeyond m).mnNai m.src ≠ .pmip ∨
    Registers (parsedPbu conf dupBeyond m)

/-- In every state the anchor can reach, handling a message uses no null and no
released entry when the message spares the entries; when it does not, it uses
one or ends before it does. -/
theorem lma_entries_live (conf : Conf) (isLma : conf.mip6Entity = .ha) (dupBeyond : Nat → Bool)
    (tun : Tunnels) (unarmed : ∀ bce, .bce bce ∉ tun.tq.list) (hnp : List MnidHnp)
    (inputs : List LmaInput) (d : Daemon)
    (finished : run (lmaStep conf dupBeyond) (init tun hnp) inputs = .ok d) (env : Env)
    (m : Received) :
    (SparesEntries conf dupBeyond d m →
      EntrySafe d (d.pmipLmaRecvPbu conf dupBeyond env m)) ∧
    (EntrySafe d (d.pmipLmaRecvPbu conf dupBeyond env m) →
      SparesEntries conf dupBeyond d m ∨
        ∃ failure, d.pmipLmaRecvPbu conf dupBeyond env m = .error failure) := by
  have ok := lmaRun_ok isLma unarmed finished
  obtain ⟨isSrc, isMag⟩ := parsedPbu_src conf dupBeyond m
  have whole := ok.lmaFsm_eq conf env (isMag.trans isSrc.symm)
  rw [isSrc] at whole
  simp only [SparesEntries]
  rw [ok.cachedType_eq]
  change (_ → EntrySafe d (d.lmaFsm conf env (parsedPbu conf dupBeyond m))) ∧
    (EntrySafe d (d.lmaFsm conf env (parsedPbu conf dupBeyond m)) → _ ∨
      ∃ failure, d.lmaFsm conf env (parsedPbu conf dupBeyond m) = .error failure)
  rw [whole]
  cases found : d.cached (parsedPbu conf dupBeyond m).mnNai m.src with
  | none =>
      refine ⟨fun _ => entrySafe_noEntry ok, fun _ => Or.inl (Or.inl ?_)⟩
      simp
  | some bce =>
      simp only [Option.isSome_some, if_true, ne_eq, not_true_eq_false, false_or]
      split
      · rename_i asks
        exact ⟨fun _ => entrySafe_refresh ok (isSrc ▸ found), fun _ => Or.inl asks⟩
      · rename_i idle
        refine ⟨fun asks => absurd asks idle, fun safe => Or.inr ?_⟩
        split at safe
        · rename_i zero
          rw [if_pos zero]
          cases dereg : d.lmaDereg conf env bce (some (parsedPbu conf dupBeyond m).seqno) with
          | error failure => exact ⟨failure, rfl⟩
          | ok mid =>
              have member := (cached_some found).1
              have isLive := ok.live bce member
              have frame := (frame_lmaDereg conf d env bce _).of_ok dereg
              have used := deregister_freedUses frame isLive ok.live
                (ok.toHashOk.frame_owner isLive frame)
              rw [dereg] at safe
              have unused : ((mid.pmipBceDelete bce).getMnAddr bce).freedUses = d.freedUses := safe.2
              rw [used] at unused
              exact absurd (congrArg List.length unused) (by simp)
        · exact absurd rfl (safe.1 d)

/-- A registration and its refresh. -/
theorem lma_entries_live_refreshed :
    ∃ d, run (lmaStep (confDefault .ha) fun _ => false) (init Tunnels.init [])
        [.message (bareUpdate 1 10) (Env.ample ⟨100, 0⟩ 10)] = .ok d ∧ d.entries = [0] ∧
      EntrySafe d (d.pmipLmaRecvPbu (confDefault .ha) (fun _ => false) (Env.ample ⟨110, 0⟩ 10)
        (bareUpdate 2 10)) := by
  have live := lma_entries_live (confDefault .ha) rfl (fun _ => false) Tunnels.init
    (fun _ => List.not_mem_nil) [] [.message (bareUpdate 1 10) (Env.ample ⟨100, 0⟩ 10)] _ rfl
    (Env.ample ⟨110, 0⟩ 10) (bareUpdate 2 10)
  exact ⟨_, rfl, by decide, live.1 (Or.inr (by decide))⟩

/-- A registration and its deregistration: the released entry is written to. -/
theorem lma_released_entry_used :
    ¬ ∀ (inputs : List LmaInput) (d : Daemon),
      run (lmaStep (confDefault .ha) fun _ => false) (init Tunnels.init []) inputs = .ok d →
      ∀ (env : Env) (m : Received),
        EntrySafe d (d.pmipLmaRecvPbu (confDefault .ha) (fun _ => false) env m) := by
  intro claimed
  have safe := claimed [.message (bareUpdate 1 10) (Env.ample ⟨100, 0⟩ 10)] _ rfl
    (Env.ample ⟨110, 0⟩ 10) (bareUpdate 2 0)
  have unused := safe.2
  revert unused
  decide

end Daemon

end OaiPmip
