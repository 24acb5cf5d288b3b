import OaiPmip.LmaMoves

/-!
# Branches of the anchor that are never taken

`lma_update_binding_entry` writes the identifier and the MAG of an entry while
the hash node of the entry points to them.  It only ever writes what is there:
an entry is found under the source of the update.  So the nodes stay in the
buckets of their keys, and the three branches for an update from another MAG are
dead.  `LmaBranches` holds the bodies of these branches; whatever they are, the
machine does the same in every state it reaches.
-/

set_option autoImplicit false

namespace OaiPmip

open OaiPmip.HashKeys OaiPmip.Msgs OaiPmip.Runs

/-- The bodies of "New serving MAG", "Handover detected" and "Deregistration for
not registered MAG". -/
structure LmaBranches where
  newServingMag : Daemon → Outcome
  handover : Daemon → Outcome
  notRegistered : Daemon → Outcome

def LmaBranches.source (conf : Conf) (env : Env) (info : MsgInfo) (bce : Nat) : LmaBranches where
  newServingMag := fun d => d.lmaRelease conf env bce
  handover := fun d => d.lmaHandover conf env info bce
  notRegistered := fun d => .ok d

namespace Daemon

section With
variable (branches : Nat → LmaBranches) (conf : Conf) (d : Daemon) (env : Env) (info : MsgInfo)
  (bce : Nat)

def lmaCheckPrefixWith : Outcome :=
  match HnpCache.lmaMnidHnpMap d.hnp (d.heap bce).mnHwAddress with
  | none => .ok d
  | some pfx =>
      if pfx = info.mnPrefix then
        let d := d.modify bce fun e => { e with mnPrefix := pfx }
        let mag := (d.heap bce).mnServMagAddr
        if mag = in6addrAny then .ok d
        else if mag ≠ info.src then (branches bce).newServingMag d
        else .ok d
      else d.lmaRelease conf env bce

def lmaUpdateBindingEntryWith : Outcome := do
  let d := d.modify bce fun e =>
    { e with
      ourAddr := conf.ourAddress
      mnSuffix := info.mnIid
      mnHwAddress := eui64ToEui48 info.mnIid
      mnNai := info.mnNai }
  let d ← d.lmaCheckPrefixWith branches conf env info bce
  let d := d.modify bce fun e =>
    { e with
      timestamp := info.timestamp
      mnPrefix := info.mnPrefix
      mnLinkLocalAddr := info.mnLinkLocalAddr
      mnServMagAddr := info.src
      lifetime := ⟨info.lifetime.tvSec, 0⟩
      nRetsCounter := conf.maxMessageRetransmissions
      seqnoIn := info.seqno }
  return (d.getMnAddr bce).modify bce fun e => { e with link := info.iif }

def lmaNoEntryWith : Outcome :=
  if info.msgEvent = .hasPBU ∧ info.lifetime.tvSec > 0 then
    match d.pmipCacheAlloc env .pmip with
    | (d, none) => .ok d
    | (d, some bce) => do
        let map := HnpCache.pmipInsertIntoHnpCache d.hnp (eui64ToEui48 info.mnIid) info.mnPrefix
          info.mnNai
        let d ← { d with hnp := map }.lmaUpdateBindingEntryWith branches conf env info bce
        let d ← d.lmaReg conf env bce
        return d.pmipCacheAdd conf env bce
  else .ok d

def lmaFirstMagWith : Outcome :=
  if (d.heap bce).mnServMagAddr = in6addrAny then do
    let d ← d.lmaUpdateBindingEntryWith branches conf env info bce
    d.lmaReg conf env bce
  else .ok d

def lmaRefreshWith : Outcome := do
  let d ← d.lmaFirstMagWith branches conf env info bce
  if info.src = (d.heap bce).mnServMagAddr then
    let d ← d.lmaUpdateBindingEntryWith branches conf env info bce
    return d.lmaRegNoNewTunnel conf env bce
  else (branches bce).handover d

def lmaDeregisterWith : Outcome := do
  if info.src = (d.heap bce).mnServMagAddr then
    let d ← d.lmaDereg conf env bce (some info.seqno)
    return d.pmipBceDelete bce
  else (branches bce).notRegistered d

def lmaFsmWith : Outcome :=
  match d.pmipCacheExists info.mnNai info.mnServMagAddr with
  | (d, .noEntry) => d.lmaNoEntryWith branches conf env info
  | (d, .temp) => .ok d
  | (d, .pmip) =>
      if info.msgEvent = .hasPBU ∧ info.lifetime.tvSec > 0 then do
        let (d, bce) ← d.getEntry info.mnNai info.mnServMagAddr
        let d ← d.lmaRefreshWith branches conf env info bce
        return d.getMnAddr bce
      else if info.msgEvent = .hasPBU ∧ info.lifetime.tvSec = 0 ∧ info.lifetime.tvNsec = 0 then do
        let (d, bce) ← d.getEntry info.mnNai info.mnServMagAddr
        let d ← d.lmaDeregisterWith branches conf env info bce
        return d.getMnAddr bce
      else .error (.nullEntry, d)

end With

theorem lmaFsmWith_source (conf : Conf) (d : Daemon) (env : Env) (info : MsgInfo) :
    d.lmaFsmWith (LmaBranches.source conf env info) conf env info = d.lmaFsm conf env info := rfl

section Dead
variable {branches : Nat → LmaBranches} {conf : Conf} {d : Daemon} {env : Env} {info : MsgInfo}
  {bce : Nat}

/-- An update of an entry that has no MAG yet, or the MAG of the update. -/
theorem lmaUpdateWith_eq
    (serves : (d.heap bce).mnServMagAddr = in6addrAny ∨ (d.heap bce).mnServMagAddr = info.src) :
    d.lmaUpdateBindingEntryWith branches conf env info bce =
      d.lmaUpdateBindingEntry conf env bce info := by
  have checks : ∀ mid : Daemon,
      ((mid.heap bce).mnServMagAddr = in6addrAny ∨ (mid.heap bce).mnServMagAddr = info.src) →
      mid.lmaCheckPrefixWith branches conf env info bce =
        mid.lmaCheckPrefix conf env bce info := by
    intro mid still
    simp only [lmaCheckPrefixWith, lmaCheckPrefix]
    cases HnpCache.lmaMnidHnpMap mid.hnp (mid.heap bce).mnHwAddress with
    | none => rfl
    | some pfx =>
        have mag : ((mid.modify bce fun e => { e with mnPrefix := pfx }).heap bce).mnServMagAddr =
            (mid.heap bce).mnServMagAddr := by
          simp [modify]
        dsimp only
        rw [mag]
        rcases still with isAny | same
        · rw [if_pos isAny, if_pos isAny]
        · rw [if_neg (not_not.mpr same), if_neg (not_not.mpr same)]
  unfold lmaUpdateBindingEntryWith lmaUpdateBindingEntry
  dsimp only
  rw [checks]
  simpa [modify] using serves

theorem lmaFirstMagWith_eq : d.lmaFirstMagWith branches conf env info bce =
    d.lmaFirstMag conf env info bce := by
  simp only [lmaFirstMagWith, lmaFirstMag]
  split
  · rename_i isAny
    rw [lmaUpdateWith_eq (Or.inl isAny)]
  · rfl

theorem lmaRefreshWith_eq (same : info.src = (d.heap bce).mnServMagAddr) :
    d.lmaRefreshWith branches conf env info bce = d.lmaRefresh conf env info bce := by
  simp only [lmaRefreshWith, lmaRefresh]
  rw [lmaFirstMagWith_eq]
  cases began : d.lmaFirstMag conf env info bce with
  | error failure => rfl
  | ok start =>
      have still := (lmaFirstMag_ok same began).1
      simp only [ok_bind, if_pos still]
      rw [lmaUpdateWith_eq (Or.inr still.symm)]

theorem lmaDeregisterWith_eq (same : info.src = (d.heap bce).mnServMagAddr) :
    d.lmaDeregisterWith branches conf env info bce = d.lmaDeregister conf env info bce := by
  simp only [lmaDeregisterWith, lmaDeregister]
  rw [if_pos same, if_pos same]

theorem lmaNoEntryWith_eq : d.lmaNoEntryWith branches conf env info = d.lmaNoEntry conf env info := by
  simp only [lmaNoEntryWith, lmaNoEntry]
  rw [pmipCacheAlloc_eq]
  split
  · cases isAllocated : env.entryAlloc with
    | false => rfl
    | true =>
        simp only [if_true]
        rw [lmaUpdateWith_eq]
        left
        simp [allocated, PmipEntry.blank]
  · rfl

theorem LmaOk.lmaFsmWith_eq (ok : LmaOk d) (fromMag : info.mnServMagAddr = info.src) :
    d.lmaFsmWith branches conf env info = d.lmaFsm conf env info := by
  simp only [lmaFsmWith, lmaFsm]
  rw [ok.toHashOk.exists_eq, ok.cachedType_eq, fromMag]
  cases found : d.cached info.mnNai info.src with
  | none => exact lmaNoEntryWith_eq
  | some bce =>
      have serving := cached_mag found
      have got : d.getEntry info.mnNai info.src = .ok (d, bce) := by
        simp only [getEntry]
        rw [ok.toHashOk.get_eq, found]
      simp only [Option.isSome_some, if_true, lmaPmip, fromMag, got, ok_bind]
      rw [lmaRefreshWith_eq serving, lmaDeregisterWith_eq serving]

end Dead

/-- In every state that the anchor reaches, the nodes are in the buckets of the
keys that their entries have now, an update that finds an entry comes from the
MAG that serves it, and the branches for another MAG could be anything. -/
theorem lma_keys_stable (conf : Conf) (isLma : conf.mip6Entity = .ha) (dupBeyond : Nat → Bool)
    (tun : Tunnels) (unarmed : ∀ bce, .bce bce ∉ tun.tq.list) (hnp : List MnidHnp)
    (inputs : List LmaInput) (d : Daemon)
    (finished : run (lmaStep conf dupBeyond) (init tun hnp) inputs = .ok d) :
    (∀ bucket, ∀ bce ∈ d.hash bucket, calcHash pmipCacheBuckets (d.key bce) = bucket) ∧
    ∀ (m : Received) (env : Env),
      (∀ bce, (d.pmipCacheGet (parsedPbu conf dupBeyond m).mnNai
          (parsedPbu conf dupBeyond m).mnServMagAddr).2 = some bce →
        (parsedPbu conf dupBeyond m).src = (d.heap bce).mnServMagAddr) ∧
      ∀ branches : Nat → LmaBranches,
        d.lmaFsmWith branches conf env (parsedPbu conf dupBeyond m) =
          d.pmipLmaRecvPbu conf dupBeyond env m := by
  have ok := lmaRun_ok isLma unarmed finished
  refine ⟨ok.placed, fun m env => ?_⟩
  obtain ⟨isSrc, isMag⟩ := parsedPbu_src conf dupBeyond m
  have fromMag := isMag.trans isSrc.symm
  refine ⟨fun bce found => ?_, fun branches => ok.lmaFsmWith_eq fromMag⟩
  rw [fromMag, ok.toHashOk.get_eq] at found
  exact cached_mag found

/-- A registration at ::2 and its refresh from there. -/
theorem lma_keys_stable_refreshed :
    ∃ d, run (lmaStep (confDynamic .ha) fun _ => false) (init Tunnels.init [])
        [.message (bareUpdate 1 10) (Env.ample ⟨100, 0⟩ 10),
          .message (bareUpdate 2 10) (Env.ample ⟨110, 0⟩ 10)] = .ok d ∧
      d.entries = [0] ∧
      ∀ bucket, ∀ bce ∈ d.hash bucket, calcHash pmipCacheBuckets (d.key bce) = bucket := by
  refine ⟨_, rfl, by decide, ?_⟩
  exact (lma_keys_stable (confDynamic .ha) rfl (fun _ => false) Tunnels.init (by
    simp [Tunnels.init, TQueue.empty]) []
    [.message (bareUpdate 1 10) (Env.ample ⟨100, 0⟩ 10),
      .message (bareUpdate 2 10) (Env.ample ⟨110, 0⟩ 10)] _ rfl).1

end Daemon

end OaiPmip
