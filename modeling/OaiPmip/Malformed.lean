import OaiPmip.LmaMoves
import OaiPmip.MagMoves

/-!
# Messages that the parsers reject

`mh_pbu_parse` and `mh_pba_parse` return 0 whether or not they accept a message,
and the handlers hand `info` to the state machine in both cases.  On the anchor
`info` was cleared, so a rejected message looks like an event of no known kind
about the node without an identifier.  On the gateway `info` is not cleared, so
a rejected message looks like whatever the stack held, with new addresses.
-/

set_option autoImplicit false

namespace OaiPmip

open OaiPmip.HashKeys OaiPmip.Msgs OaiPmip.Runs

/-- The cache and its entries, the timers and tunnels, the client routes and the
calls out of the daemon are as they were. -/
structure Undisturbed (d d' : Daemon) : Prop where
  hash : d'.hash = d.hash
  count : d'.count = d.count
  entries : ∀ bce ∈ d.entries, d'.heap bce = d.heap bce ∧ d'.live bce = d.live bce
  tun : d'.tun = d.tun
  clients : d'.clients = d.clients
  log : d'.log = d.log

namespace Daemon

def Ignores (d : Daemon) (outcome : Outcome) : Prop := ∃ d', outcome = .ok d' ∧ Undisturbed d d'

theorem ignores_touch (d : Daemon) (used : List Nat) : Ignores d (.ok (d.touch used)) :=
  ⟨_, rfl, rfl, rfl, fun _ _ => ⟨rfl, rfl⟩, rfl, rfl, rfl⟩

theorem lma_ignores_iff (conf : Conf) (dupBeyond : Nat → Bool) (d : Daemon) (env : Env)
    (m : Received) (rejected : acceptedPbu conf dupBeyond m = none) :
    Ignores d (d.pmipLmaRecvPbu conf dupBeyond env m) ↔
      d.cachedType (Octets.zero 63) m.src ≠ .pmip := by
  have info : mhPbuParse conf dupBeyond MsgInfo.zero m =
      pbuAddresses MsgInfo.zero m.src m.dst m.iif := by
    simp only [mhPbuParse]
    rw [rejected]
  have noUpdate : (pbuAddresses MsgInfo.zero m.src m.dst m.iif).msgEvent ≠ .hasPBU := by
    simp [pbuAddresses, MsgInfo.zero]
  have isNai : (pbuAddresses MsgInfo.zero m.src m.dst m.iif).mnNai = Octets.zero 63 := rfl
  have isMag : (pbuAddresses MsgInfo.zero m.src m.dst m.iif).mnServMagAddr = m.src := rfl
  simp only [pmipLmaRecvPbu]
  rw [info]
  simp only [lmaFsm]
  rw [pmipCacheExists_eq, isNai, isMag]
  cases isType : d.cachedType (Octets.zero 63) m.src with
  | noEntry =>
      simp only [lmaNoEntry, noUpdate, false_and, if_false]
      simp [ignores_touch]
  | temp => simp [ignores_touch]
  | pmip =>
      simp only [lmaPmip, noUpdate, false_and, if_false]
      constructor
      · intro given
        obtain ⟨d', failed, _⟩ := given
        cases failed
      · exact fun different => absurd rfl different

/-! ## The gateway -/

def Acknowledges (conf : Conf) (d : Daemon) (info : MsgInfo) : Prop :=
  info.msgEvent = .hasPBA ∧ info.dst = conf.magAddressEgress ∧
    ∃ bce, d.cached info.mnNai conf.ourAddress = some bce ∧ isPbaResponse info (d.heap bce) = true

def MovesRegistered (event : MsgEvent) : Prop :=
  event = .hasRS ∨ event = .hasWLCCP ∨ event = .hasODTONELinkEvent ∨ event = .hasDEREG ∨
    event = .hasNA

/-- Whether `mag_fsm` acts on an event: it registers an unknown node that the
map knows, takes an acknowledgement, or works on a registered node. -/
def Acts (conf : Conf) (d : Daemon) (env : Env) (info : MsgInfo) : Prop :=
  match d.cachedType info.mnNai conf.ourAddress with
  | .noEntry =>
      StartsRegistration conf info ∧
        (HnpCache.mnidHnpMap d.hnp env.radius (eui64ToEui48 info.mnIid) info.mnNai).2.isSome
  | .temp => Acknowledges conf d info
  | .pmip => MovesRegistered info.msgEvent ∨ Acknowledges conf d info

section Mag
variable {conf : Conf} {d : Daemon} {env : Env} {info : MsgInfo}

theorem kickoff_grows {α β : Type} {first : PmipEntry → α} {second : PmipEntry → β} {bce : Nat}
    {start mid d' : Daemon} (before : Frame first bce start mid)
    (after : Frame second bce (mid.magKickoffRa bce) d') : start.log.length < d'.log.length := by
  have grown : (mid.magKickoffRa bce).log.length = mid.log.length + 1 := rfl
  have earlier := before.logged.length_le
  have later := after.logged.length_le
  omega

theorem magRegister_acts (used : List Nat) (sends : env.mhAlloc = true)
    (answered : (HnpCache.mnidHnpMap d.hnp env.radius (eui64ToEui48 info.mnIid)
      info.mnNai).2.isSome) {d' : Daemon}
    (taken : (d.touch used).magRegister conf env info = .ok d') :
    d.log.length < d'.log.length := by
  simp only [magRegister] at taken
  rw [pmipCacheAlloc_eq] at taken
  cases answer : HnpCache.mnidHnpMap d.hnp env.radius (eui64ToEui48 info.mnIid) info.mnNai with
  | mk map result =>
      rw [answer] at answered
      obtain ⟨⟨pfx, nai⟩, rfl⟩ := Option.isSome_iff_exists.mp answered
      cases isAllocated : env.entryAlloc with
      | false =>
          have asked : (d.touch used).hnp = d.hnp := rfl
          simp only [isAllocated, Bool.false_eq_true, if_false, asked, answer] at taken
          cases taken
      | true =>
          have asked : ((d.touch used).allocated .temp).hnp = d.hnp := rfl
          simp only [isAllocated, if_true, asked, answer] at taken
          cases taken
          have added := (pmipCacheAdd_added conf
            ((d.touch used).registering conf env info map pfx nai) env d.top).logged.length_le
          have sent : ((d.touch used).registering conf env info map pfx nai).log.length =
              d.log.length + 1 := by
            simp [registering, magPmipMd, magStartRegistration, startRetransmission, addTask,
              mhSendPbu, sends, modify, emit, touch, allocated]
          exact lt_of_lt_of_le (by omega) added

theorem magEndRegistration_acts {start d' : Daemon} {bce : Nat} {iif : Int}
    (ended : start.magEndRegistration conf env bce iif = .ok d') :
    start.log.length < d'.log.length := by
  simp only [magEndRegistration] at ended
  obtain ⟨next, added, done⟩ := bind_eq_ok.mp ended
  cases done
  have opened := (frame_registered conf start env bce).trans
    ((frame_tunnelAdd _ _ bce (fun _ _ => rfl) conf env _ _).of_ok added)
  apply kickoff_grows (opened.trans (frame_magUplinkAdd next bce).owner)
  exact (frame_getMnAddr _ bce).trans (frame_magSetupRoute conf _ bce _ _)

theorem magDereg_acts {start d' : Daemon} {bce : Nat}
    (dereg : start.magDereg conf env bce true = .ok d') : start.log.length < d'.log.length := by
  simp only [magDereg] at dereg
  obtain ⟨next, deleted, done⟩ := bind_eq_ok.mp dereg
  cases done
  have unrouted := ((frame_magUnroute conf start bce).trans
    (frame_magUplinkDel _ bce).owner).logged.length_le
  have sent := (frame_mhSendPbu next bce env conf.ourAddress conf.lmaAddress ⟨0, 0⟩).logged.length_le
  have released : next.log.length =
      ((start.magUnroute conf bce).magUplinkDel bce).log.length + 1 := by
    unfold pmipTunnelDel at deleted
    dsimp only at deleted
    split at deleted
    · cases deleted
    · cases deleted
      rfl
  omega

theorem mhSendPbu_acts (sends : env.mhAlloc = true) (start : Daemon) (src dst : In6Addr) (bce : Nat)
    (lifetime : Timespec) :
    (start.mhSendPbu env src dst bce lifetime).log.length = start.log.length + 1 := by
  simp [mhSendPbu, sends, modify, emit, touch]

theorem forceUpdate_acts (sends : env.mhAlloc = true) (start : Daemon) (bce : Nat) :
    start.log.length < (start.magForceUpdateRegistration conf env bce).log.length := by
  unfold magForceUpdateRegistration
  have stopped : start.log.length ≤ (if (start.tun.tq.task (.bce bce)).isSome then
      start.delTask bce else start.touch [bce]).log.length := by
    split <;> exact le_refl _
  have sent := mhSendPbu_acts sends (if (start.tun.tq.task (.bce bce)).isSome then
    start.delTask bce else start.touch [bce]) conf.magAddressEgress conf.lmaAddress bce
    conf.pbuLifeTime
  have armed := (frame_startRetransmission conf (Daemon.mhSendPbu (if (start.tun.tq.task
    (.bce bce)).isSome then start.delTask bce else start.touch [bce]) env conf.magAddressEgress
    conf.lmaAddress bce conf.pbuLifeTime) env bce).logged.length_le
  dsimp only
  omega

theorem magTemp_acts {k : PmipKey} (acknowledges : Acknowledges conf d info) {d' : Daemon}
    (taken : (d.touch (d.walk k (d.chainOf k))).magTemp conf env info = .ok d') :
    d.log.length < d'.log.length := by
  obtain ⟨isPba, _, bce, cached, response⟩ := acknowledges
  simp only [magTemp] at taken
  rw [isPba] at taken
  obtain ⟨⟨start, p⟩, got, taken⟩ := bind_eq_ok.mp taken
  obtain ⟨work, found, _, heap⟩ := worked_found (looked_walk d k) got
  obtain rfl := Option.some.inj (cached.symm.trans found)
  dsimp only at taken
  rw [heap, if_pos response] at taken
  have grown := magEndRegistration_acts taken
  have ready := (work.frame.trans (frame_delTask _ start bce)).trans
    (frame_modify _ _ bce (fun e =>
      { e with
        pbaFlags := info.pbaFlags
        lifetime := { e.lifetime with tvSec := shortenLifetime info.lifetime.tvSec } }) rfl)
  exact lt_of_le_of_lt ready.logged.length_le grown

theorem magPmip_acts {k : PmipKey} (sends : env.mhAlloc = true)
    (moves : MovesRegistered info.msgEvent ∨ Acknowledges conf d info) {d' : Daemon}
    (taken : (d.touch (d.walk k (d.chainOf k))).magPmip conf env info = .ok d') :
    d.log.length < d'.log.length := by
  simp only [magPmip] at taken
  split at taken
  · obtain ⟨⟨start, bce⟩, got, taken⟩ := bind_eq_ok.mp taken
    obtain ⟨work, _⟩ := worked_found (looked_walk d k) got
    cases taken
    exact kickoff_grows work.frame (Frame.refl PmipEntry.binding bce _)
  · rename_i isPba
    obtain ⟨⟨start, bce⟩, got, taken⟩ := bind_eq_ok.mp taken
    obtain ⟨work, found, _, heap⟩ := worked_found (looked_walk d k) got
    rcases moves with moved | ⟨_, _, p, cached, response⟩
    · simp [MovesRegistered, isPba] at moved
    · obtain rfl := Option.some.inj (cached.symm.trans found)
      dsimp only at taken
      rw [heap, if_pos response] at taken
      cases taken
      have ready := (work.frame.owner.trans (frame_delTask _ start p)).trans
        (frame_modify _ _ p (fun e =>
          { e with
            pbaFlags := info.pbaFlags
            lifetime := ⟨shortenLifetime info.lifetime.tvSec, 0⟩ }) rfl)
      exact kickoff_grows (ready.trans (frame_registered conf _ env p))
        (Frame.refl PmipEntry.binding p _)
  · obtain ⟨⟨start, bce⟩, got, taken⟩ := bind_eq_ok.mp taken
    obtain ⟨work, _⟩ := worked_found (looked_walk d k) got
    cases taken
    exact kickoff_grows work.frame (frame_magForceUpdateRegistration conf _ env bce)
  · obtain ⟨⟨start, bce⟩, got, taken⟩ := bind_eq_ok.mp taken
    obtain ⟨work, _⟩ := worked_found (looked_walk d k) got
    cases taken
    exact kickoff_grows work.frame (frame_magForceUpdateRegistration conf _ env bce)
  · obtain ⟨⟨start, bce⟩, got, taken⟩ := bind_eq_ok.mp taken
    obtain ⟨work, _⟩ := worked_found (looked_walk d k) got
    obtain ⟨mid, dereg, taken⟩ := bind_eq_ok.mp taken
    cases taken
    have kept : (mid.pmipBceDelete bce).log = mid.log := rfl
    rw [kept]
    exact lt_of_le_of_lt work.frame.logged.length_le (magDereg_acts dereg)
  · obtain ⟨⟨start, bce⟩, got, taken⟩ := bind_eq_ok.mp taken
    obtain ⟨work, _⟩ := worked_found (looked_walk d k) got
    cases taken
    have ready := (work.frame.trans (frame_modify _ start bce (fun e =>
      { e with nRetsCounter := conf.maxMessageRetransmissions }) rfl)).trans
      (frame_delTask _ _ bce)
    exact lt_of_le_of_lt ready.logged.length_le (forceUpdate_acts sends _ bce)
  · rename_i notRs notPba notWlccp notOdtone notDereg notNa
    rcases moves with moved | acknowledged
    · rcases moved with same | same | same | same | same
      · exact absurd same notRs
      · exact absurd same notWlccp
      · exact absurd same notOdtone
      · exact absurd same notDereg
      · exact absurd same notNa
    · exact absurd acknowledged.1 notPba

theorem magFsm_acts (sends : env.mhAlloc = true) (acts : Acts conf d env info) :
    ¬ Ignores d (d.magFsm conf env info) := by
  intro given
  obtain ⟨d', taken, undisturbed⟩ := given
  have grows : d.log.length < d'.log.length := by
    simp only [magFsm] at taken
    simp only [Acts] at acts
    split at taken
    · rename_i elsewhere
      exfalso
      cases isType : d.cachedType info.mnNai conf.ourAddress with
      | noEntry =>
          simp only [isType, StartsRegistration, elsewhere.1] at acts
          simp at acts
      | temp =>
          simp only [isType] at acts
          exact elsewhere.2 acts.2.1
      | pmip =>
          simp only [isType] at acts
          rcases acts with moved | acknowledged
          · simp [MovesRegistered, elsewhere.1] at moved
          · exact elsewhere.2 acknowledged.2.1
    · rw [pmipCacheExists_eq] at taken
      cases isType : d.cachedType info.mnNai conf.ourAddress with
      | noEntry =>
          simp only [isType] at acts taken
          obtain ⟨⟨ingress, event⟩, answered⟩ := acts
          simp only [magNoEntry] at taken
          rw [if_pos ingress] at taken
          rcases event with event | event | event
          · rw [event] at taken
            exact magRegister_acts _ sends answered taken
          · rw [event] at taken
            exact magRegister_acts _ sends answered taken
          · rw [event] at taken
            exact magRegister_acts _ sends answered taken
      | temp =>
          simp only [isType] at acts taken
          exact magTemp_acts acts taken
      | pmip =>
          simp only [isType] at acts taken
          exact magPmip_acts sends acts taken
  rw [undisturbed.log] at grows
  exact Nat.lt_irrefl _ grows

/-- A registration that the map does not answer leaves a blank entry that
nothing refers to. -/
theorem magRegister_idle (fresh : d.top ∉ d.entries) (used : List Nat)
    (unanswered : (HnpCache.mnidHnpMap d.hnp env.radius (eui64ToEui48 info.mnIid)
      info.mnNai).2 = none) : Ignores d ((d.touch used).magRegister conf env info) := by
  simp only [magRegister]
  rw [pmipCacheAlloc_eq]
  cases answer : HnpCache.mnidHnpMap d.hnp env.radius (eui64ToEui48 info.mnIid) info.mnNai with
  | mk map result =>
      rw [answer] at unanswered
      obtain rfl : result = none := unanswered
      cases isAllocated : env.entryAlloc with
      | false =>
          have asked : (d.touch used).hnp = d.hnp := rfl
          simp only [Bool.false_eq_true, if_false, asked, answer]
          exact ⟨_, rfl, rfl, rfl, fun _ _ => ⟨rfl, rfl⟩, rfl, rfl, rfl⟩
      | true =>
          have asked : ((d.touch used).allocated .temp).hnp = d.hnp := rfl
          simp only [if_true, asked, answer]
          refine ⟨_, rfl, rfl, rfl, fun bce member => ?_, rfl, rfl, rfl⟩
          have different : bce ≠ d.top := fun here => fresh (here ▸ member)
          constructor
          · exact Function.update_of_ne different _ _
          · exact Function.update_of_ne different _ _

theorem unacknowledged_idle {k : PmipKey} {rest : Daemon × Nat → Outcome}
    (registered : d.cachedType info.mnNai conf.ourAddress ≠ .noEntry)
    (other : ∀ bce, d.cached info.mnNai conf.ourAddress = some bce →
      isPbaResponse info (d.heap bce) = false)
    (returns : ∀ start bce, isPbaResponse info (start.heap bce) = false →
      rest (start, bce) = .ok start) :
    Ignores d ((d.touch (d.walk k (d.chainOf k))).getEntry info.mnNai conf.ourAddress >>= rest) := by
  rw [getEntry_eq, cached_touch]
  cases cached : d.cached info.mnNai conf.ourAddress with
  | none =>
      rw [cachedType, cached] at registered
      exact absurd rfl registered
  | some bce =>
      simp only [ok_bind]
      rw [returns _ bce]
      · exact ⟨_, rfl, rfl, rfl, fun _ _ => ⟨rfl, rfl⟩, rfl, rfl, rfl⟩
      · exact other bce cached

theorem magFsm_idle (fresh : d.top ∉ d.entries) (idle : ¬ Acts conf d env info) :
    Ignores d (d.magFsm conf env info) := by
  simp only [magFsm]
  split
  · exact ignores_touch d []
  · rename_i here
    rw [pmipCacheExists_eq]
    simp only [Acts] at idle
    have response : info.msgEvent = .hasPBA → ¬ Acknowledges conf d info → ∀ bce,
        d.cached info.mnNai conf.ourAddress = some bce →
          isPbaResponse info (d.heap bce) = false := by
      intro isPba unacknowledged bce cached
      by_contra isResponse
      have forUs : info.dst = conf.magAddressEgress := by
        by_contra elsewhere
        exact here ⟨isPba, elsewhere⟩
      exact unacknowledged ⟨isPba, forUs, bce, cached, by simpa using isResponse⟩
    cases isType : d.cachedType info.mnNai conf.ourAddress with
    | noEntry =>
        simp only [isType] at idle ⊢
        simp only [magNoEntry]
        split
        · rename_i ingress
          have unanswered : ∀ event, info.msgEvent = event → event = .hasRS ∨ event = .hasWLCCP ∨
              event = .hasODTONELinkEvent → (HnpCache.mnidHnpMap d.hnp env.radius
                (eui64ToEui48 info.mnIid) info.mnNai).2 = none := by
            intro event isEvent starts
            by_contra answered
            exact idle ⟨⟨ingress, isEvent ▸ starts⟩, Option.isSome_iff_ne_none.mpr answered⟩
          split
          · rename_i event
            exact magRegister_idle fresh _ (unanswered _ event (by simp))
          · rename_i event
            exact magRegister_idle fresh _ (unanswered _ event (by simp))
          · rename_i event
            exact magRegister_idle fresh _ (unanswered _ event (by simp))
          · exact ignores_touch d _
        · exact ignores_touch d _
    | temp =>
        simp only [isType] at idle ⊢
        simp only [magTemp]
        split
        · rename_i isPba
          apply unacknowledged_idle (by simp [isType]) (response isPba idle)
          intro start bce other
          simp [other]
          rfl
        · exact ignores_touch d _
    | pmip =>
        simp only [isType] at idle ⊢
        rw [not_or] at idle
        simp only [magPmip]
        split
        · rename_i event
          exact absurd (by simp [MovesRegistered, event]) idle.1
        · rename_i isPba
          apply unacknowledged_idle (by simp [isType]) (response isPba idle.2)
          intro start bce other
          simp [other]
          rfl
        · rename_i event
          exact absurd (by simp [MovesRegistered, event]) idle.1
        · rename_i event
          exact absurd (by simp [MovesRegistered, event]) idle.1
        · rename_i event
          exact absurd (by simp [MovesRegistered, event]) idle.1
        · rename_i event
          exact absurd (by simp [MovesRegistered, event]) idle.1
        · exact ignores_touch d _

end Mag

/-- Entries are allocated below `top`. -/
def EntriesBelow (d : Daemon) : Prop := ∀ bce ∈ d.entries, bce < d.top

theorem magStep_below {conf : Conf} (isMag : conf.mip6Entity = .mag) (d : Daemon) (input : MagInput)
    (d' : Daemon) (below : EntriesBelow d) (taken : d.magStep conf input = .ok d') :
    EntriesBelow d' := by
  have frames : ∀ {α : Type} {view : PmipEntry → α} {bce : Nat} {next : Daemon},
      Frame view bce d next → EntriesBelow next := by
    intro α view bce next frame p member
    rw [frame.top]
    exact below p (frame.entries ▸ member)
  have deletes : ∀ {bce : Nat} {next : Daemon}, EntriesBelow next →
      EntriesBelow (next.pmipBceDelete bce) := fun kept p member =>
    kept p (delete_entries_subset _ _ p member)
  cases magStep_move isMag taken with
  | looked used => exact below
  | leaked used => exact fun p member => Nat.lt_succ_of_lt (below p member)
  | @registered info env map pfx nai used missing starts answer =>
      intro p member
      have frame := frame_registering conf (d.touch used) env info map pfx nai
      have added := pmipCacheAdd_added conf ((d.touch used).registering conf env info map pfx nai)
        env d.top
      have top : ((d.touch used).registering conf env info map pfx nai).top = d.top + 1 := frame.top
      rw [added.top, top]
      rcases added.mem_entries p member with rfl | before
      · exact Nat.lt_succ_self _
      · have old : p ∈ d.entries := frame.entries ▸ before
        exact Nat.lt_succ_of_lt (below p old)
  | worked known work => exact frames work.frame
  | attached _ found wasTemp work ended =>
      exact frames (work.frame.owner.trans ((frame_magEndRegistration conf _ _ _ _).of_ok ended))
  | detached known _ work dereg =>
      exact deletes (frames (work.frame.owner.trans ((frame_magDereg conf _ _ _ true).of_ok dereg)))
  | dropped known spent work => exact deletes (frames work.frame)
  | tunnelExpired queued => exact below

def staleInfo (stack : MsgInfo) (m : Received) : MsgInfo :=
  { stack with src := m.src, dst := m.dst, iif := m.iif }

theorem mag_ignores_iff {conf : Conf} (dupBeyond : Nat → Bool) {d : Daemon} (below : EntriesBelow d)
    (env : Env) (stack : MsgInfo) (m : Received) (rejected : decodePba dupBeyond m = none) :
    (¬ Acts conf d env (staleInfo stack m) →
      Ignores d (d.pmipMagRecvPba conf dupBeyond env stack m)) ∧
    (env.mhAlloc = true → Ignores d (d.pmipMagRecvPba conf dupBeyond env stack m) →
      ¬ Acts conf d env (staleInfo stack m)) := by
  have info : mhPbaParse dupBeyond stack m = staleInfo stack m := by
    simp only [mhPbaParse]
    rw [rejected]
    rfl
  simp only [pmipMagRecvPba]
  rw [info]
  have fresh : d.top ∉ d.entries := fun member => Nat.lt_irrefl _ (below _ member)
  exact ⟨magFsm_idle fresh, fun sends ignored acts => magFsm_acts sends acts ignored⟩

/-! ## Both ends -/

/-- In every reachable state, a message that the parser rejects leaves no trace
on the anchor exactly when no registered node of its source has the zero
identifier, and on the gateway when the state machine does not act on what the
stack held; when it does, and the update it sends can be built, it leaves one. -/
theorem malformed_ignored (dupBeyond : Nat → Bool) (tun : Tunnels) (hnp : List MnidHnp) :
    (∀ (conf : Conf) (inputs : List LmaInput) (d : Daemon),
      run (lmaStep conf dupBeyond) (init tun hnp) inputs = .ok d →
      ∀ (env : Env) (m : Received), acceptedPbu conf dupBeyond m = none →
        (Ignores d (d.pmipLmaRecvPbu conf dupBeyond env m) ↔
          d.cachedType (Octets.zero 63) m.src ≠ .pmip)) ∧
    (∀ (conf : Conf), conf.mip6Entity = .mag → ∀ (inputs : List MagInput) (d : Daemon),
      run (magStep conf) (init tun hnp) inputs = .ok d →
      ∀ (env : Env) (stack : MsgInfo) (m : Received), decodePba dupBeyond m = none →
        (¬ Acts conf d env (staleInfo stack m) →
          Ignores d (d.pmipMagRecvPba conf dupBeyond env stack m)) ∧
        (env.mhAlloc = true → Ignores d (d.pmipMagRecvPba conf dupBeyond env stack m) →
          ¬ Acts conf d env (staleInfo stack m))) := by
  constructor
  · intro conf inputs d _ env m rejected
    exact lma_ignores_iff conf dupBeyond d env m rejected
  · intro conf isMag inputs d finished env stack m rejected
    have start : EntriesBelow (init tun hnp) := by simp [EntriesBelow, entries, init]
    have below : EntriesBelow d := run_invariant
      (fun d input d' below _ taken => magStep_below isMag d input d' below taken) start
      (meets_always (fun _ _ => trivial) inputs _) finished
    exact mag_ignores_iff dupBeyond below env stack m rejected

/-- A message of 16 bytes whose only option is an alternate care-of address of
two. -/
def refusedOption (type : UInt8) (src : In6Addr) : Received where
  mh := fun i => ([59, 1, type, 0, 0, 0, 0, 0, 0, 0, 0, 0, 3, 2, 0, 0] : List UInt8).getD i 0
  len := 16
  src := src
  dst := in6addrLoopback
  iif := 1

def gatewayOne : Conf := { confDefault .mag with ingressIif := 1 }

/-- One registered node; the refused message comes from elsewhere, and the
gateway's stack is clear. -/
theorem malformed_ignored_elsewhere :
    ∃ d, run (lmaStep (confDefault .ha) fun _ => false) (init Tunnels.init [])
        [.message (bareUpdate 1 10) (Env.ample ⟨100, 0⟩ 10)] = .ok d ∧ d.entries = [0] ∧
      Ignores d (d.pmipLmaRecvPbu (confDefault .ha) (fun _ => false) (Env.ample ⟨110, 0⟩ 10)
        (refusedOption 5 in6addrLoopback)) ∧
      Ignores (init Tunnels.init []) ((init Tunnels.init []).pmipMagRecvPba gatewayOne
        (fun _ => false) (Env.ample ⟨110, 0⟩ 10) MsgInfo.zero
        (refusedOption 6 in6addrLoopback)) := by
  obtain ⟨anchor, gateway⟩ := malformed_ignored (fun _ => false) Tunnels.init []
  refine ⟨_, rfl, by decide, (anchor (confDefault .ha)
    [.message (bareUpdate 1 10) (Env.ample ⟨100, 0⟩ 10)] _ rfl _ _ (by decide)).mpr (by decide), ?_⟩
  apply (gateway gatewayOne rfl [] _ rfl _ _ _ (by decide)).1
  intro acts
  have event : MsgEvent.other 0 = .hasRS ∨ MsgEvent.other 0 = .hasWLCCP ∨
      MsgEvent.other 0 = .hasODTONELinkEvent := acts.1.2
  revert event
  decide

/-- The anchor crashes on a refused message from the MAG of a node without
identifier; the gateway registers a node that an earlier event left on its
stack. -/
theorem malformed_disturbs :
    (¬ ∀ (inputs : List LmaInput) (d : Daemon),
      run (lmaStep (confDefault .ha) fun _ => false) (init Tunnels.init []) inputs = .ok d →
      ∀ (env : Env) (m : Received), acceptedPbu (confDefault .ha) (fun _ => false) m = none →
        Ignores d (d.pmipLmaRecvPbu (confDefault .ha) (fun _ => false) env m)) ∧
    (¬ ∀ (inputs : List MagInput) (d : Daemon),
      run (magStep gatewayOne) (init Tunnels.init [⟨in6addrAny,
        eui64ToEui48 in6addrLoopback, Octets.zero 63⟩]) inputs = .ok d →
      ∀ (env : Env) (stack : MsgInfo) (m : Received), decodePba (fun _ => false) m = none →
        Ignores d (d.pmipMagRecvPba gatewayOne (fun _ => false) env stack m)) := by
  constructor
  · intro claimed
    obtain ⟨d', returned, _⟩ := claimed [.message (bareUpdate 1 10) (Env.ample ⟨100, 0⟩ 10)] _ rfl
      (Env.ample ⟨110, 0⟩ 10) (refusedOption 5 (bareUpdate 0 0).src) (by decide)
    cases returned
  · intro claimed
    obtain ⟨d', returned, undisturbed⟩ := claimed [] _ rfl (Env.ample ⟨110, 0⟩ 10)
      (icmpRsParse (linkLocalAddr in6addrLoopback) in6addrAny 1)
      (refusedOption 6 in6addrLoopback)
      (by decide)
    have reached := Except.ok.inj returned
    subst reached
    have silent := undisturbed.log
    revert silent
    decide

end Daemon

end OaiPmip
