import OaiPmip.Lib.Locks
import OaiPmip.MagUplink

/-!
# The locks of the binding cache

The calls of pmip_cache.c, pmip_fsm.c, pmip_handler.c and pmip_init.c with
`pmip_lock`, `fsm_lock` and the locks of the entries.  `g_pmip_hash` and
`g_pmip_cache_count` are guarded by `pmip_lock`.  `pmip_cache_get` comes back
with two locks and `pmipcache_release_entry` gives both up, so an entry that is
deleted after its release is taken out of the cache without `pmip_lock`.
-/

set_option autoImplicit false

namespace OaiPmip

open OaiPmip.HashKeys OaiPmip.Locks OaiPmip.Runs

inductive CacheLock where
  | pmip
  | entry (bce : Nat)
  | fsm
  deriving DecidableEq

abbrev LockedPath := Path CacheLock (Crash × Daemon)

namespace Locked

def rdlock (lock : CacheLock) : LockedPath Unit := Path.op (.acquire lock .read)

def wrlock (lock : CacheLock) : LockedPath Unit := Path.op (.acquire lock .write)

def unlock (lock : CacheLock) : LockedPath Unit := Path.op (.release lock)

/-- Writing `g_pmip_hash` or `g_pmip_cache_count`. -/
def modifyCache : LockedPath Unit := Path.op (.modify .pmip)

def pmipCacheGet (d : Daemon) (mnNai : Nai) (magAddr : In6Addr) :
    LockedPath (Daemon × Option Nat) := do
  rdlock .pmip
  match d.pmipCacheGet mnNai magAddr with
  | (d, some bce) =>
      wrlock (.entry bce)
      return (d, some bce)
  | (d, none) =>
      unlock .pmip
      return (d, none)

def pmipcacheReleaseEntry (bce : Nat) : LockedPath Unit := do
  unlock (.entry bce)
  unlock .pmip

def pmipCacheExists (d : Daemon) (mnNai : Nai) (magAddr : In6Addr) :
    LockedPath (Daemon × BceType) := do
  match ← pmipCacheGet d mnNai magAddr with
  | (d, none) => return (d, .noEntry)
  | (d, some bce) =>
      pmipcacheReleaseEntry bce
      return (d, (d.heap bce).type)

def pmipCacheAdd (conf : Conf) (d : Daemon) (env : Env) (bce : Nat) : LockedPath Daemon := do
  wrlock .pmip
  match (d.nextBid bce).pmipcacheInsert env bce with
  | (d, false) =>
      unlock .pmip
      return d
  | (d, true) =>
      modifyCache
      unlock .pmip
      return d.inserted conf env bce

def pmipBceDelete (d : Daemon) (bce : Nat) : LockedPath Daemon := do
  wrlock (.entry bce)
  modifyCache
  unlock (.entry bce)
  return d.pmipBceDelete bce

def pmipCacheDelete (d : Daemon) (mnNai : Nai) (magAddr : In6Addr) : LockedPath Daemon := do
  wrlock .pmip
  match d.pmipCacheGet mnNai magAddr with
  | (d, some bce) =>
      let d ← pmipBceDelete d bce
      unlock .pmip
      return d
  | (d, none) =>
      unlock .pmip
      return d

/-- `pmip_cache_get` for an entry that is then used without a null check. -/
def getEntry (d : Daemon) (mnNai : Nai) (magAddr : In6Addr) : LockedPath (Daemon × Nat) := do
  match ← pmipCacheGet d mnNai magAddr with
  | (d, none) => Path.lift (.error (.nullEntry, d))
  | (d, some bce) => return (d, bce)

def magRegister (conf : Conf) (d : Daemon) (env : Env) (info : MsgInfo) : LockedPath Daemon :=
  let hwAddress := eui64ToEui48 info.mnIid
  let (d, bce) := d.pmipCacheAlloc env .temp
  let (map, answer) := HnpCache.mnidHnpMap d.hnp env.radius hwAddress info.mnNai
  let d := { d with hnp := map }
  match answer, bce with
  | none, _ => return d
  | some _, none => Path.lift (.error (.nullEntry, d))
  | some (pfx, nai), some bce =>
      let d := d.modify bce fun e =>
        { e with mnNai := nai, mnPrefix := pfx, mnSuffix := info.mnIid, mnHwAddress := hwAddress }
      let d := d.magPmipMd conf env { info with mnPrefix := pfx } bce
      pmipCacheAdd conf d env bce

def magNoEntry (conf : Conf) (d : Daemon) (env : Env) (info : MsgInfo) : LockedPath Daemon :=
  if info.iif = conf.ingressIif then
    match info.msgEvent with
    | .hasRS | .hasWLCCP | .hasODTONELinkEvent => magRegister conf d env info
    | _ => return d
  else return d

def withEntry (d : Daemon) (mnNai : Nai) (magAddr : In6Addr) (work : Daemon → Nat → Outcome) :
    LockedPath Daemon := do
  let (d, bce) ← getEntry d mnNai magAddr
  let d ← Path.lift (work d bce)
  pmipcacheReleaseEntry bce
  return d

def withEntryDeleted (d : Daemon) (mnNai : Nai) (magAddr : In6Addr)
    (work : Daemon → Nat → Outcome) : LockedPath Daemon := do
  let (d, bce) ← getEntry d mnNai magAddr
  let d ← Path.lift (work d bce)
  pmipcacheReleaseEntry bce
  pmipBceDelete d bce

def magTemp (conf : Conf) (d : Daemon) (env : Env) (info : MsgInfo) : LockedPath Daemon :=
  match info.msgEvent with
  | .hasPBA =>
      withEntry d info.mnNai conf.ourAddress fun d bce =>
        if Daemon.isPbaResponse info (d.heap bce) then
          let d := (d.delTask bce).modify bce fun e =>
            { e with
              pbaFlags := info.pbaFlags
              lifetime := { e.lifetime with tvSec := Daemon.shortenLifetime info.lifetime.tvSec } }
          d.magEndRegistration conf env bce info.iif
        else .ok d
  | _ => return d

def magPmip (conf : Conf) (d : Daemon) (env : Env) (info : MsgInfo) : LockedPath Daemon :=
  match info.msgEvent with
  | .hasRS =>
      withEntry d info.mnNai (eui64ToEui48 info.mnIid) fun d bce => .ok (d.magKickoffRa bce)
  | .hasPBA =>
      withEntry d info.mnNai conf.ourAddress fun d bce =>
        if Daemon.isPbaResponse info (d.heap bce) then
          let d := (d.delTask bce).modify bce fun e =>
            { e with
              pbaFlags := info.pbaFlags
              lifetime := ⟨Daemon.shortenLifetime info.lifetime.tvSec, 0⟩ }
          .ok (d.magEndRegistrationNoNewTunnel conf env bce)
        else .ok d
  | .hasWLCCP | .hasODTONELinkEvent =>
      withEntry d info.mnNai conf.ourAddress fun d bce =>
        .ok ((d.magKickoffRa bce).magForceUpdateRegistration conf env bce)
  | .hasDEREG =>
      withEntryDeleted d info.mnNai conf.ourAddress fun d bce => d.magDereg conf env bce true
  | .hasNA =>
      withEntry d info.mnNai conf.ourAddress fun d bce =>
        let d := d.modify bce fun e => { e with nRetsCounter := conf.maxMessageRetransmissions }
        .ok ((d.delTask bce).magForceUpdateRegistration conf env bce)
  | _ => return d

def magFsm (conf : Conf) (d : Daemon) (env : Env) (info : MsgInfo) : LockedPath Daemon :=
  if info.msgEvent = .hasPBA ∧ info.dst ≠ conf.magAddressEgress then return d
  else do
    let (d, type) ← pmipCacheExists d info.mnNai conf.ourAddress
    wrlock .fsm
    let d ← match type with
      | .noEntry => magNoEntry conf d env info
      | .temp => magTemp conf d env info
      | .pmip => magPmip conf d env info
    unlock .fsm
    return d

def lmaNoEntry (conf : Conf) (d : Daemon) (env : Env) (info : MsgInfo) : LockedPath Daemon :=
  if info.msgEvent = .hasPBU ∧ info.lifetime.tvSec > 0 then
    match d.pmipCacheAlloc env .pmip with
    | (d, none) => return d
    | (d, some bce) => do
        let map := HnpCache.pmipInsertIntoHnpCache d.hnp (eui64ToEui48 info.mnIid) info.mnPrefix
          info.mnNai
        let d ← Path.lift ({ d with hnp := map }.lmaUpdateBindingEntry conf env bce info)
        let d ← Path.lift (d.lmaReg conf env bce)
        pmipCacheAdd conf d env bce
  else return d

/-- `case BCE_PMIP`.  An update is a deregistration with a lifetime of zero; only
that of the serving gateway deletes the entry. -/
def lmaPmip (conf : Conf) (d : Daemon) (env : Env) (info : MsgInfo) : LockedPath Daemon :=
  if info.msgEvent = .hasPBU ∧ info.lifetime.tvSec > 0 then do
    let (d, bce) ← getEntry d info.mnNai info.mnServMagAddr
    let d ← Path.lift (d.lmaRefresh conf env info bce)
    pmipcacheReleaseEntry bce
    return d.getMnAddr bce
  else if info.msgEvent = .hasPBU ∧ info.lifetime.tvSec = 0 ∧ info.lifetime.tvNsec = 0 then do
    let (d, bce) ← getEntry d info.mnNai info.mnServMagAddr
    if info.src = (d.heap bce).mnServMagAddr then
      let d ← Path.lift (d.lmaDereg conf env bce (some info.seqno))
      pmipcacheReleaseEntry bce
      let d ← pmipBceDelete d bce
      return d.getMnAddr bce
    else
      pmipcacheReleaseEntry bce
      return d.getMnAddr bce
  else Path.lift (.error (.nullEntry, d))

def lmaFsm (conf : Conf) (d : Daemon) (env : Env) (info : MsgInfo) : LockedPath Daemon := do
  match ← pmipCacheExists d info.mnNai info.mnServMagAddr with
  | (d, .noEntry) => lmaNoEntry conf d env info
  | (d, .temp) => return d
  | (d, .pmip) => lmaPmip conf d env info

/-- `interrupted` is what `task_interrupted` answers: the task was taken off the queue
while the handler waited for `pmip_lock`. -/
def pmipTimerRetransPbuHandler (conf : Conf) (d : Daemon) (env : Env) (interrupted : Bool)
    (bce : Nat) : LockedPath Daemon := do
  wrlock .pmip
  if interrupted then
    unlock .pmip
    return d
  else
    wrlock (.entry bce)
    if (d.heap bce).nRetsCounter = 0 then
      unlock (.entry bce)
      let d ← pmipBceDelete d bce
      unlock .pmip
      return d
    else
      let d ← Path.lift (d.pmipTimerRetransPbuHandler conf env bce)
      unlock (.entry bce)
      unlock .pmip
      return d

def pmipTimerBceExpiredHandler (conf : Conf) (d : Daemon) (env : Env) (interrupted : Bool)
    (bce : Nat) : LockedPath Daemon := do
  wrlock .pmip
  if interrupted then
    unlock .pmip
    return d
  else
    wrlock (.entry bce)
    match conf.mip6Entity with
    | .ha =>
        let d ← Path.lift (d.lmaDereg conf env bce none)
        pmipcacheReleaseEntry bce
        pmipBceDelete d bce
    | .mag =>
        if (d.heap bce).nRetsCounter = 0 then
          let d ← Path.lift (d.magDereg conf env bce true)
          pmipcacheReleaseEntry bce
          pmipBceDelete d bce
        else
          let d ← Path.lift (d.pmipTimerBceExpiredHandler conf env bce)
          unlock (.entry bce)
          unlock .pmip
          return d

def ip6RulePrioMip6Fwd : Nat := 1005

def removeRoutes (conf : Conf) (d : Daemon) (env : Env) (bce : Nat) : Outcome :=
  let e := d.heap bce
  match conf.mip6Entity with
  | .mag =>
      (((d.touch [bce]).magRemoveRoute conf e.mnAddr e.link).magUplinkDel bce).pmipTunnelDel conf
        env bce
  | .ha => ((d.touch [bce]).lmaRemoveRoute conf e.mnAddr e.tunnel).pmipTunnelDel conf env bce

def pmipCacheDeleteEach (conf : Conf) (env : Env) (d : Daemon) (bce : Nat) :
    LockedPath Daemon := do
  let d ← Path.lift (removeRoutes conf d env bce)
  pmipBceDelete d bce

/-- `pmip_hash_iterate`, which reads the next node before the entry goes. -/
def deleteAll (conf : Conf) (env : Env) : Daemon → List Nat → LockedPath Daemon
  | d, [] => return d
  | d, bce :: rest => do
      let d ← pmipCacheDeleteEach conf env d bce
      deleteAll conf env d rest

/-- `pmip_cleanup`; stopping the packet capture is left out. -/
def pmipCleanup (conf : Conf) (d : Daemon) (env : Env) : LockedPath Daemon := do
  let d := d.emit (.ruleDel .mip6 ip6RulePrioMip6Fwd in6addrAny 0 in6addrAny 0)
  rdlock .pmip
  let d ← deleteAll conf env d d.entries
  unlock .pmip
  return d

inductive Call where
  | magFsm (info : MsgInfo)
  | lmaFsm (info : MsgInfo)
  | retransPbu (interrupted : Bool) (bce : Nat)
  | bceExpired (interrupted : Bool) (bce : Nat)
  | cacheDelete (mnNai : Nai) (magAddr : In6Addr)
  | cleanup

def Call.path (conf : Conf) (d : Daemon) (env : Env) : Call → LockedPath Daemon
  | .magFsm info => Locked.magFsm conf d env info
  | .lmaFsm info => Locked.lmaFsm conf d env info
  | .retransPbu interrupted bce => pmipTimerRetransPbuHandler conf d env interrupted bce
  | .bceExpired interrupted bce => pmipTimerBceExpiredHandler conf d env interrupted bce
  | .cacheDelete mnNai magAddr => pmipCacheDelete d mnNai magAddr
  | .cleanup => pmipCleanup conf d env

/-! ## The data of the paths -/

section Results
variable (conf : Conf) (d : Daemon) (env : Env) (info : MsgInfo)

theorem result_pmipCacheGet (mnNai : Nai) (magAddr : In6Addr) :
    (pmipCacheGet d mnNai magAddr).result = .ok (d.pmipCacheGet mnNai magAddr) := by
  simp only [pmipCacheGet, rdlock, wrlock, unlock, Path.result_op_bind]
  rcases d.pmipCacheGet mnNai magAddr with ⟨next, _ | bce⟩ <;> rfl

theorem result_pmipCacheExists (mnNai : Nai) (magAddr : In6Addr) :
    (pmipCacheExists d mnNai magAddr).result = .ok (d.pmipCacheExists mnNai magAddr) := by
  simp only [pmipCacheExists, Path.result_bind, result_pmipCacheGet, ok_bind,
    Daemon.pmipCacheExists]
  rcases d.pmipCacheGet mnNai magAddr with ⟨next, _ | bce⟩ <;> rfl

theorem result_pmipCacheAdd (bce : Nat) :
    (pmipCacheAdd conf d env bce).result = .ok (d.pmipCacheAdd conf env bce) := by
  simp only [pmipCacheAdd, wrlock, Path.result_op_bind, Daemon.pmipCacheAdd]
  rcases (d.nextBid bce).pmipcacheInsert env bce with ⟨next, _ | _⟩ <;> rfl

theorem result_getEntry (mnNai : Nai) (magAddr : In6Addr) :
    (getEntry d mnNai magAddr).result = d.getEntry mnNai magAddr := by
  simp only [getEntry, Path.result_bind, result_pmipCacheGet, ok_bind, Daemon.getEntry]
  rcases d.pmipCacheGet mnNai magAddr with ⟨next, _ | bce⟩ <;> rfl

theorem result_withEntry (mnNai : Nai) (magAddr : In6Addr) (work : Daemon → Nat → Outcome) :
    (withEntry d mnNai magAddr work).result =
      d.getEntry mnNai magAddr >>= fun got => work got.1 got.2 := by
  simp only [withEntry, Path.result_bind, result_getEntry, Path.result_lift]
  congr 1
  funext got
  cases work got.1 got.2 <;> rfl

theorem result_withEntryDeleted (mnNai : Nai) (magAddr : In6Addr)
    (work : Daemon → Nat → Outcome) :
    (withEntryDeleted d mnNai magAddr work).result =
      d.getEntry mnNai magAddr >>= fun got => work got.1 got.2 >>= fun d' =>
        .ok (d'.pmipBceDelete got.2) := by
  simp only [withEntryDeleted, Path.result_bind, result_getEntry, Path.result_lift]
  rfl

theorem result_magRegister :
    (magRegister conf d env info).result = d.magRegister conf env info := by
  simp only [magRegister, Daemon.magRegister]
  rcases d.pmipCacheAlloc env .temp with ⟨allocated, bce⟩
  rcases HnpCache.mnidHnpMap allocated.hnp env.radius (eui64ToEui48 info.mnIid) info.mnNai with
    ⟨map, _ | ⟨pfx, nai⟩⟩
  · rfl
  · cases bce with
    | none => rfl
    | some bce => exact result_pmipCacheAdd conf _ env bce

theorem result_magNoEntry :
    (magNoEntry conf d env info).result = d.magNoEntry conf env info := by
  simp only [magNoEntry, Daemon.magNoEntry]
  split
  · have registers := result_magRegister conf d env info
    cases info.msgEvent with
    | hasRS => exact registers
    | hasWLCCP => exact registers
    | hasODTONELinkEvent => exact registers
    | _ => rfl
  · rfl

theorem result_magTemp : (magTemp conf d env info).result = d.magTemp conf env info := by
  simp only [magTemp, Daemon.magTemp]
  cases info.msgEvent with
  | hasPBA => exact result_withEntry d _ _ _
  | _ => rfl

theorem result_magPmip : (magPmip conf d env info).result = d.magPmip conf env info := by
  simp only [magPmip, Daemon.magPmip]
  cases info.msgEvent with
  | hasRS => exact result_withEntry d _ _ _
  | hasPBA => exact result_withEntry d _ _ _
  | hasWLCCP => exact result_withEntry d _ _ _
  | hasODTONELinkEvent => exact result_withEntry d _ _ _
  | hasDEREG => exact result_withEntryDeleted d _ _ _
  | hasNA => exact result_withEntry d _ _ _
  | _ => rfl

theorem result_unlock (path : LockedPath Daemon) (lock : CacheLock) :
    (path >>= fun d => unlock lock >>= fun _ => pure d).result = path.result := by
  rw [Path.result_bind]
  cases path.result <;> rfl

theorem result_magFsm : (magFsm conf d env info).result = d.magFsm conf env info := by
  simp only [magFsm, Daemon.magFsm]
  split
  · rfl
  · simp only [Path.result_bind, result_pmipCacheExists, ok_bind, wrlock]
    rcases d.pmipCacheExists info.mnNai conf.ourAddress with ⟨next, type⟩
    cases type with
    | noEntry => exact (result_unlock _ _).trans (result_magNoEntry conf next env info)
    | temp => exact (result_unlock _ _).trans (result_magTemp conf next env info)
    | pmip => exact (result_unlock _ _).trans (result_magPmip conf next env info)

theorem result_lmaNoEntry :
    (lmaNoEntry conf d env info).result = d.lmaNoEntry conf env info := by
  simp only [lmaNoEntry, Daemon.lmaNoEntry]
  split
  · rcases d.pmipCacheAlloc env .pmip with ⟨allocated, _ | bce⟩
    · rfl
    · simp only [Path.result_bind, Path.result_lift, result_pmipCacheAdd]
      rfl
  · rfl

theorem result_lmaPmip : (lmaPmip conf d env info).result = d.lmaPmip conf env info := by
  simp only [lmaPmip, Daemon.lmaPmip]
  split
  · simp only [Path.result_bind, result_getEntry, Path.result_lift]
    rfl
  · split
    · simp only [Path.result_bind, result_getEntry]
      congr 1
      funext got
      simp only [Daemon.lmaDeregister]
      split
      · simp only [Path.result_bind, Path.result_lift]
        cases got.1.lmaDereg conf env got.2 (some info.seqno) <;> rfl
      · rfl
    · rfl

theorem result_lmaFsm : (lmaFsm conf d env info).result = d.lmaFsm conf env info := by
  simp only [lmaFsm, Daemon.lmaFsm, Path.result_bind, result_pmipCacheExists, ok_bind]
  rcases d.pmipCacheExists info.mnNai info.mnServMagAddr with ⟨next, type⟩
  cases type with
  | noEntry => exact result_lmaNoEntry conf next env info
  | temp => rfl
  | pmip => exact result_lmaPmip conf next env info

theorem result_retransPbu (bce : Nat) :
    (pmipTimerRetransPbuHandler conf d env false bce).result =
      d.pmipTimerRetransPbuHandler conf env bce := by
  simp only [pmipTimerRetransPbuHandler, wrlock, Path.result_op_bind, Bool.false_eq_true, if_false]
  split
  · rename_i exhausted
    simp only [Daemon.pmipTimerRetransPbuHandler, if_pos exhausted]
    rfl
  · simp only [Path.result_bind, Path.result_lift]
    cases d.pmipTimerRetransPbuHandler conf env bce <;> rfl

theorem result_bceExpired (bce : Nat) :
    (pmipTimerBceExpiredHandler conf d env false bce).result =
      d.pmipTimerBceExpiredHandler conf env bce := by
  simp only [pmipTimerBceExpiredHandler, wrlock, Path.result_op_bind, Bool.false_eq_true, if_false]
  cases role : conf.mip6Entity with
  | ha =>
      simp only [Daemon.pmipTimerBceExpiredHandler, role, Path.result_bind, Path.result_lift]
      rfl
  | mag =>
      simp only
      split
      · rename_i exhausted
        simp only [Daemon.pmipTimerBceExpiredHandler, role, if_pos exhausted, Path.result_bind,
          Path.result_lift]
        rfl
      · simp only [Path.result_bind, Path.result_lift]
        cases d.pmipTimerBceExpiredHandler conf env bce <;> rfl

end Results

/-! ## The discipline of each call -/

def Free (held : Held CacheLock) : Prop :=
  held.owns .pmip = false ∧ ∀ bce, held.owns (.entry bce) = false

theorem free_nil : Free [] := ⟨rfl, fun _ => rfl⟩

theorem free_fsm : Free [(.fsm, .write)] := ⟨rfl, fun _ => rfl⟩

theorem Free.unguarded {held : Held CacheLock} (free : Free held) :
    (CacheLock.pmip, Mode.write) ∉ held := by
  intro member
  have owned : held.owns .pmip = true := List.any_eq_true.mpr ⟨_, member, by simp⟩
  rw [free.1] at owned
  cases owned

theorem Free.entry {held : Held CacheLock} (free : Free held) (mode : Mode) (bce : Nat) :
    Held.owns ((.pmip, mode) :: held) (.entry bce) = false := by
  simp [free.2 bce]

section Rules
variable {Result : Type} {held final : Held CacheLock} {conf : Conf} {d : Daemon} {env : Env}
  {bce : Nat}

theorem good_wrlock (lock : CacheLock) (next : Unit → LockedPath Result) :
    (wrlock lock >>= next).Good held final ↔
      held.owns lock = false ∧ (next ()).Good ((lock, .write) :: held) final :=
  Path.good_op_bind held final _ next

theorem good_unlock {lock : CacheLock} (unowned : held.owns lock = false) (mode : Mode)
    (next : Unit → LockedPath Result) :
    (unlock lock >>= next).Good ((lock, mode) :: held) final ↔ (next ()).Good held final := by
  rw [unlock, Path.good_op_bind, LockOp.release_acquire unowned]
  simp [LockOp.Allowed]

theorem good_getEntry (free : Free held) (mnNai : Nai) (magAddr : In6Addr)
    (next : Daemon × Nat → LockedPath Result) :
    (getEntry d mnNai magAddr >>= next).Good held final ↔
      ∀ bce, d.cached mnNai magAddr = some bce →
        (next ((d.pmipCacheGet mnNai magAddr).1, bce)).Good
          ((.entry bce, .write) :: (.pmip, .read) :: held) final := by
  simp only [getEntry, pmipCacheGet, rdlock, wrlock, unlock, Path.bind_assoc, Path.good_op_bind,
    Daemon.pmipCacheGet_eq]
  cases d.cached mnNai magAddr with
  | none =>
      simp only [Path.bind_assoc, Path.good_op_bind, Path.good_pure_bind, Path.good_lift_bind]
      simp [LockOp.Allowed, LockOp.apply, free.1]
  | some bce =>
      simp only [Path.bind_assoc, Path.good_op_bind, Path.good_pure_bind, Option.some.injEq,
        forall_eq']
      simp [LockOp.Allowed, LockOp.apply, free.1, free.2]

theorem good_release (free : Free held) (mode : Mode) (next : Unit → LockedPath Result) :
    (pmipcacheReleaseEntry bce >>= next).Good
        ((.entry bce, .write) :: (.pmip, mode) :: held) final ↔
      (next ()).Good held final := by
  simp only [pmipcacheReleaseEntry, unlock, Path.bind_assoc, Path.good_op_bind,
    LockOp.release_acquire (free.entry mode bce), LockOp.release_acquire free.1]
  simp [LockOp.Allowed]

theorem good_pmipBceDelete (unowned : held.owns (.entry bce) = false)
    (next : Daemon → LockedPath Result) :
    (pmipBceDelete d bce >>= next).Good held final ↔
      (.pmip, .write) ∈ held ∧ (next (d.pmipBceDelete bce)).Good held final := by
  simp only [pmipBceDelete, wrlock, modifyCache, unlock, Path.bind_assoc, Path.good_op_bind,
    Path.good_pure_bind]
  have back := LockOp.release_acquire unowned .write
  simp only [LockOp.Allowed, unowned, true_and]
  change _ ∧ _ ∧ (next (d.pmipBceDelete bce)).Good
    ((LockOp.release (.entry bce)).apply ((.entry bce, .write) :: held)) final ↔ _
  rw [back]
  simp [LockOp.apply]

theorem good_pmipCacheExists (free : Free held) (mnNai : Nai) (magAddr : In6Addr)
    (next : Daemon × BceType → LockedPath Result) :
    (pmipCacheExists d mnNai magAddr >>= next).Good held final ↔
      (next (d.pmipCacheExists mnNai magAddr)).Good held final := by
  simp only [pmipCacheExists, pmipCacheGet, rdlock, wrlock, unlock, Path.bind_assoc,
    Path.good_op_bind, Daemon.pmipCacheExists, Daemon.pmipCacheGet_eq]
  cases d.cached mnNai magAddr with
  | none =>
      simp only [Path.bind_assoc, Path.good_op_bind, Path.good_pure_bind, LockOp.Allowed]
      change _ ∧ _ ∧ (next _).Good ((LockOp.release .pmip).apply ((.pmip, .read) :: held)) final ↔ _
      rw [LockOp.release_acquire free.1]
      simp [LockOp.apply, free.1]
  | some bce =>
      simp only [Path.bind_assoc, Path.good_op_bind, Path.good_pure_bind, LockOp.Allowed,
        LockOp.apply, good_release free]
      simp [free.1, free.2]

theorem good_pmipCacheAdd (free : Free held) : (pmipCacheAdd conf d env bce).Good held held := by
  simp only [pmipCacheAdd, wrlock, unlock, modifyCache, Path.good_op_bind]
  have back := LockOp.release_acquire free.1 .write
  rcases (d.nextBid bce).pmipcacheInsert env bce with ⟨next, _ | _⟩
  · simp only [Path.good_op_bind, Path.good_pure]
    exact ⟨free.1, by simp [LockOp.Allowed, LockOp.apply], back⟩
  · simp only [Path.good_op_bind, Path.good_pure]
    exact ⟨free.1, by simp [LockOp.Allowed, LockOp.apply], by simp [LockOp.Allowed, LockOp.apply],
      back⟩

theorem good_withEntry (free : Free held) (mnNai : Nai) (magAddr : In6Addr)
    (work : Daemon → Nat → Outcome) : (withEntry d mnNai magAddr work).Good held held := by
  simp only [withEntry]
  rw [good_getEntry free]
  intro bce _
  simp only [Path.good_lift_bind, good_release free, Path.good_pure, implies_true]

theorem good_withEntryDeleted (free : Free held) (mnNai : Nai) (magAddr : In6Addr)
    (work : Daemon → Nat → Outcome) (next : Daemon → LockedPath Result) :
    (withEntryDeleted d mnNai magAddr work >>= next).Good held final ↔
      ∀ bce, d.cached mnNai magAddr = some bce →
        ¬∃ d', work (d.pmipCacheGet mnNai magAddr).1 bce = .ok d' := by
  simp only [withEntryDeleted, Path.bind_assoc]
  rw [good_getEntry free]
  simp only [Path.good_lift_bind, good_release free,
    good_pmipBceDelete (free.2 _), free.unguarded, false_and, imp_false, not_exists]

end Rules

def Releasable (conf : Conf) (t : Tunnels) (tunnel : Int) : Prop :=
  conf.tunnelingEnabled = true → tunnel > 0 → conf.dynamicTunnelingEnabled = true →
    t.ctl.tunnelGetusers tunnel = 1 → ∃ mag, (t.timers mag).tunnel = tunnel

theorem pmipTunnelDel_returns (conf : Conf) (t : Tunnels) (now : Timespec) (tunnel : Int) :
    (∃ result, t.pmipTunnelDel conf now tunnel = .ok result) ↔ Releasable conf t tunnel := by
  simp only [Tunnels.pmipTunnelDel, Releasable]
  by_cases enabled : conf.tunnelingEnabled = true
  · by_cases made : tunnel > 0
    · by_cases dynamic : conf.dynamicTunnelingEnabled = true
      · by_cases last : t.ctl.tunnelGetusers tunnel = 1
        · simp only [enabled, made, dynamic, last, if_true, forall_true_left]
          cases found : (List.finRange pmipMaxMags).find? fun mag =>
              (t.timers mag).tunnel = tunnel with
          | none =>
              have missing : ∀ mag, ¬(t.timers mag).tunnel = tunnel := by simpa using found
              simp [missing]
          | some mag =>
              have recorded : (t.timers mag).tunnel = tunnel := by
                simpa using List.find?_some found
              refine ⟨fun _ => ⟨mag, recorded⟩, fun _ => ?_⟩
              have indexed : ∃ slot, t.pmipTunnelGetTimerIndex (t.timers mag).remote = some slot := by
                simp only [Tunnels.pmipTunnelGetTimerIndex]
                cases known : (List.finRange pmipMaxMags).find? fun other =>
                    (t.timers other).remote = (t.timers mag).remote with
                | some other => exact ⟨other, rfl⟩
                | none =>
                    have unknown : ∀ other, ¬(t.timers other).remote = (t.timers mag).remote := by
                      simpa using known
                    exact absurd rfl (unknown mag)
              obtain ⟨slot, isSlot⟩ := indexed
              simp only [Tunnels.pmipTunnelSetTimer, isSlot]
              split
              · rename_i failed
                split at failed
                · cases failed
                · split at failed <;> cases failed
              · exact ⟨_, rfl⟩
        · simp [enabled, made, dynamic, last]
      · simp [enabled, made, dynamic]
    · simp [enabled, made]
  · simp [enabled]

section Returns
variable {conf : Conf} {d : Daemon} (env : Env) {bce : Nat}

theorem daemonTunnelDel_returns :
    (∃ d', d.pmipTunnelDel conf env bce = .ok d') ↔ Releasable conf d.tun (d.heap bce).tunnel := by
  rw [← pmipTunnelDel_returns conf d.tun env.now]
  simp only [Daemon.pmipTunnelDel]
  cases d.tun.pmipTunnelDel conf env.now (d.heap bce).tunnel <;> simp

theorem magDereg_returns :
    (∃ d', d.magDereg conf env bce true = .ok d') ↔
      Releasable conf d.tun (d.heap bce).tunnel := by
  have unrouted : (d.magUnroute conf bce).tun = d.tun ∧
      ((d.magUnroute conf bce).heap bce).tunnel = (d.heap bce).tunnel := by
    simp only [Daemon.magUnroute, Daemon.magRemoveRoute]
    split <;> simp [Daemon.getMnAddr, Daemon.modify, Daemon.touch, Daemon.emit]
  have same : ((d.magUnroute conf bce).magUplinkDel bce).tun = d.tun ∧
      (((d.magUnroute conf bce).magUplinkDel bce).heap bce).tunnel = (d.heap bce).tunnel := by
    simp only [Daemon.magUplinkDel]
    split
    · exact unrouted
    · exact unrouted
  rw [← same.1, ← same.2, ← daemonTunnelDel_returns env]
  simp only [Daemon.magDereg]
  cases ((d.magUnroute conf bce).magUplinkDel bce).pmipTunnelDel conf env bce with
  | error crash => simp [bind, Except.bind]
  | ok released => simp [bind, Except.bind, pure, Except.pure]

def Registered (clients : List ClientRoute) (mnNai : Nai) (mag : In6Addr) : Prop :=
  ∃ client, ClientRoutes.find clients mnNai = some client ∧ mag ∈ client.mags

theorem removeClientRoute_returns (mnNai : Nai) (mag : In6Addr) :
    (∃ d', d.removeClientRoute mnNai mag = .ok d') ↔ Registered d.clients mnNai mag := by
  simp only [Daemon.removeClientRoute, ClientRoutes.removeClientRoute, Registered]
  cases ClientRoutes.find d.clients mnNai with
  | none => simp
  | some client =>
      by_cases member : mag ∈ client.mags
      · by_cases last : client.mags.erase mag = []
        · simp [member, last]
        · simp [member, last]
      · simp [member]

theorem lmaDereg_returns (seqno : Option UInt16) :
    (∃ d', d.lmaDereg conf env bce seqno = .ok d') ↔
      Releasable conf d.tun (d.heap bce).tunnel ∧
        Registered d.clients (d.heap bce).mnNai (d.heap bce).mnServMagAddr := by
  let unrouted := ((d.delTask bce).getMnAddr bce).lmaRemoveRoute conf
    (((d.delTask bce).getMnAddr bce).heap bce).mnAddr
    (((d.delTask bce).getMnAddr bce).heap bce).tunnel
  have same : unrouted.tun = (d.delTask bce).tun ∧ unrouted.clients = d.clients ∧
      (unrouted.heap bce).tunnel = (d.heap bce).tunnel ∧
      (unrouted.heap bce).mnNai = (d.heap bce).mnNai ∧
      (unrouted.heap bce).mnServMagAddr = (d.heap bce).mnServMagAddr := by
    simp only [unrouted, Daemon.lmaRemoveRoute]
    split <;> simp [Daemon.getMnAddr, Daemon.modify, Daemon.touch, Daemon.emit, Daemon.delTask]
  have tunnel : Releasable conf unrouted.tun (unrouted.heap bce).tunnel ↔
      Releasable conf d.tun (d.heap bce).tunnel := by
    rw [same.1, same.2.2.1]
    rfl
  rw [← tunnel, ← daemonTunnelDel_returns env]
  simp only [Daemon.lmaDereg, Daemon.lmaRelease]
  change (∃ d', (unrouted.pmipTunnelDel conf env bce >>= _) = .ok d') ↔ _
  simp only [Daemon.pmipTunnelDel]
  cases unrouted.tun.pmipTunnelDel conf env.now (unrouted.heap bce).tunnel with
  | error crash => simp [bind, Except.bind]
  | ok released =>
      let closed := { unrouted with tun := released.1 }.emit
        (.tunnelDel (unrouted.heap bce).mnServMagAddr (unrouted.heap bce).tunnel)
      have registered : (∃ d', closed.removeClientRoute (closed.heap bce).mnNai
          (closed.heap bce).mnServMagAddr = .ok d') ↔
          Registered d.clients (d.heap bce).mnNai (d.heap bce).mnServMagAddr := by
        rw [removeClientRoute_returns, ← same.2.1, ← same.2.2.2.1, ← same.2.2.2.2]
        rfl
      rw [← registered]
      change (∃ d', (closed.removeClientRoute (closed.heap bce).mnNai
        (closed.heap bce).mnServMagAddr >>= _) = .ok d') ↔ _
      cases closed.removeClientRoute (closed.heap bce).mnNai (closed.heap bce).mnServMagAddr with
      | error crash => simp [bind, Except.bind]
      | ok removed => simp [bind, Except.bind, pure, Except.pure]

theorem removeRoutes_returns :
    (∃ d', removeRoutes conf d env bce = .ok d') ↔ Releasable conf d.tun (d.heap bce).tunnel := by
  simp only [removeRoutes]
  cases conf.mip6Entity with
  | mag =>
      let unruled := (d.touch [bce]).magRemoveRoute conf (d.heap bce).mnAddr (d.heap bce).link
      have unrouted : unruled.tun = d.tun ∧ (unruled.heap bce).tunnel = (d.heap bce).tunnel := by
        simp only [unruled, Daemon.magRemoveRoute]
        split <;> exact ⟨rfl, rfl⟩
      have same : (unruled.magUplinkDel bce).tun = d.tun ∧
          ((unruled.magUplinkDel bce).heap bce).tunnel = (d.heap bce).tunnel := by
        simp only [Daemon.magUplinkDel]
        split
        · exact unrouted
        · exact unrouted
      rw [← same.1, ← same.2]
      exact daemonTunnelDel_returns env
  | ha =>
      let unruled := (d.touch [bce]).lmaRemoveRoute conf (d.heap bce).mnAddr (d.heap bce).tunnel
      have same : unruled.tun = d.tun ∧ (unruled.heap bce).tunnel = (d.heap bce).tunnel := by
        simp only [unruled, Daemon.lmaRemoveRoute]
        split <;> exact ⟨rfl, rfl⟩
      have closed : (∃ d', unruled.pmipTunnelDel conf env bce = .ok d') ↔ _ :=
        daemonTunnelDel_returns env
      rw [same.1, same.2] at closed
      exact closed

end Returns

section Calls
variable {conf : Conf} {d : Daemon} {env : Env} {info : MsgInfo} {held final : Held CacheLock}

theorem good_magNoEntry (free : Free held) : (magNoEntry conf d env info).Good held held := by
  have registers : (magRegister conf d env info).Good held held := by
    simp only [magRegister]
    split
    · exact (Path.good_pure held held _).mpr rfl
    · exact (Path.good_lift held held _).mpr fun _ failed => by cases failed
    · exact good_pmipCacheAdd free
  have nothing : (pure d : LockedPath Daemon).Good held held := (Path.good_pure held held d).mpr rfl
  simp only [magNoEntry]
  split
  · cases info.msgEvent with
    | hasRS => exact registers
    | hasWLCCP => exact registers
    | hasODTONELinkEvent => exact registers
    | _ => exact nothing
  · exact nothing

theorem good_magTemp (free : Free held) : (magTemp conf d env info).Good held held := by
  simp only [magTemp]
  cases info.msgEvent with
  | hasPBA => exact good_withEntry free _ _ _
  | _ => exact (Path.good_pure held held d).mpr rfl

theorem good_magPmip (free : Free held) (stays : info.msgEvent ≠ .hasDEREG) :
    (magPmip conf d env info).Good held held := by
  simp only [magPmip]
  cases event : info.msgEvent with
  | hasRS => exact good_withEntry free _ _ _
  | hasPBA => exact good_withEntry free _ _ _
  | hasWLCCP => exact good_withEntry free _ _ _
  | hasODTONELinkEvent => exact good_withEntry free _ _ _
  | hasDEREG => exact absurd event stays
  | hasNA => exact good_withEntry free _ _ _
  | _ => exact (Path.good_pure held held d).mpr rfl

def MagDeletes (conf : Conf) (d : Daemon) (info : MsgInfo) : Prop :=
  info.msgEvent = .hasDEREG ∧ ∃ bce, d.cached info.mnNai conf.ourAddress = some bce ∧
    (d.heap bce).type = .pmip ∧ Releasable conf d.tun (d.heap bce).tunnel

theorem MagDeletes.isPmip (deletes : MagDeletes conf d info) :
    d.cachedType info.mnNai conf.ourAddress = .pmip := by
  obtain ⟨-, bce, found, isPmip, -⟩ := deletes
  simp only [Daemon.cachedType, found, isPmip]

theorem good_magFsm : (magFsm conf d env info).Good [] [] ↔ ¬MagDeletes conf d info := by
  have unlocks : ∀ d', (do unlock .fsm; return d' : LockedPath Daemon).Good
      [(.fsm, .write)] [] := by
    intro d'
    rw [unlock, Path.good_op_bind, Path.good_pure]
    decide
  simp only [magFsm]
  split
  · rename_i elsewhere
    rw [Path.good_pure]
    refine ⟨fun _ deletes => ?_, fun _ => rfl⟩
    rw [deletes.1] at elsewhere
    cases elsewhere.1
  · rw [good_pmipCacheExists free_nil, Daemon.pmipCacheExists_eq]
    simp only [wrlock, Path.good_op_bind]
    change _ ∧ Path.Good [(CacheLock.fsm, Mode.write)] [] _ ↔ _
    have allowed : (LockOp.acquire CacheLock.fsm .write).Allowed [] := rfl
    simp only [allowed, true_and]
    cases type : d.cachedType info.mnNai conf.ourAddress with
    | noEntry =>
        simp only
        rw [(good_magNoEntry free_fsm).bind]
        refine iff_of_true (fun d' _ => unlocks d') fun deletes => ?_
        rw [deletes.isPmip] at type
        cases type
    | temp =>
        simp only
        rw [(good_magTemp free_fsm).bind]
        refine iff_of_true (fun d' _ => unlocks d') fun deletes => ?_
        rw [deletes.isPmip] at type
        cases type
    | pmip =>
        simp only
        by_cases event : info.msgEvent = .hasDEREG
        · simp only [magPmip, event]
          rw [good_withEntryDeleted free_fsm]
          simp only [magDereg_returns]
          constructor
          · intro kept deletes
            obtain ⟨-, bce, found, -, released⟩ := deletes
            exact kept bce found released
          · intro kept bce found released
            exact kept ⟨event, bce, found, Daemon.cachedType_some type found, released⟩
        · rw [(good_magPmip free_fsm event).bind]
          exact iff_of_true (fun d' _ => unlocks d') fun deletes => event deletes.1

theorem good_lmaNoEntry : (lmaNoEntry conf d env info).Good [] [] := by
  simp only [lmaNoEntry]
  split
  · split
    · exact (Path.good_pure [] [] _).mpr rfl
    · rw [Path.good_lift_bind]
      intro updated _
      rw [Path.good_lift_bind]
      intro registered _
      exact good_pmipCacheAdd free_nil
  · exact (Path.good_pure [] [] _).mpr rfl

/-- The anchor deletes an entry after its release when the gateway that serves it
deregisters it. -/
def LmaDeletes (conf : Conf) (d : Daemon) (info : MsgInfo) : Prop :=
  info.msgEvent = .hasPBU ∧ info.lifetime = ⟨0, 0⟩ ∧
    ∃ bce, d.cached info.mnNai info.mnServMagAddr = some bce ∧ (d.heap bce).type = .pmip ∧
      info.src = (d.heap bce).mnServMagAddr ∧ Releasable conf d.tun (d.heap bce).tunnel ∧
      Registered d.clients (d.heap bce).mnNai (d.heap bce).mnServMagAddr

theorem good_lmaPmip (isPmip : d.cachedType info.mnNai info.mnServMagAddr = .pmip) :
    (lmaPmip conf d env info).Good [] [] ↔ ¬LmaDeletes conf d info := by
  simp only [lmaPmip]
  split
  · rename_i registers
    rw [good_getEntry free_nil]
    refine iff_of_true ?_ fun deletes => ?_
    · intro bce _
      simp only [Path.good_lift_bind, good_release free_nil, Path.good_pure, implies_true]
    · have positive := registers.2
      rw [deletes.2.1] at positive
      exact absurd positive (lt_irrefl 0)
  · split
    · rename_i dereg
      have noLifetime : info.lifetime = ⟨0, 0⟩ := by
        obtain ⟨-, sec, nsec⟩ := dereg
        cases lifetime : info.lifetime
        rw [lifetime] at sec nsec
        simp only at sec nsec
        rw [sec, nsec]
      rw [good_getEntry free_nil]
      constructor
      · intro kept deletes
        obtain ⟨-, -, bce, found, -, serving, released, registered⟩ := deletes
        have path := kept bce found
        have same : info.src = ((d.pmipCacheGet info.mnNai info.mnServMagAddr).1.heap
          bce).mnServMagAddr := serving
        simp only [if_pos same, Path.good_lift_bind, good_release free_nil,
          good_pmipBceDelete (free_nil.2 bce), List.not_mem_nil, false_and] at path
        obtain ⟨d', gone⟩ := (lmaDereg_returns env
          (d := (d.pmipCacheGet info.mnNai info.mnServMagAddr).1) (some info.seqno)).mpr
            ⟨released, registered⟩
        exact path d' gone
      · intro kept bce found
        simp only
        split
        · rename_i serving
          simp only [Path.good_lift_bind, good_release free_nil,
            good_pmipBceDelete (free_nil.2 bce), List.not_mem_nil, false_and]
          intro d' gone
          obtain ⟨released, registered⟩ := (lmaDereg_returns env (some info.seqno)).mp ⟨d', gone⟩
          exact kept ⟨dereg.1, noLifetime, bce, found, Daemon.cachedType_some isPmip found, serving,
            released, registered⟩
        · simp only [good_release free_nil, Path.good_pure]
    · rename_i noUpdate
      refine iff_of_true ((Path.good_lift [] [] _).mpr fun _ failed => by cases failed) ?_
      intro deletes
      apply noUpdate
      rw [deletes.2.1]
      exact ⟨deletes.1, rfl, rfl⟩

theorem LmaDeletes.isPmip (deletes : LmaDeletes conf d info) :
    d.cachedType info.mnNai info.mnServMagAddr = .pmip := by
  obtain ⟨-, -, bce, found, isPmip, -⟩ := deletes
  simp only [Daemon.cachedType, found, isPmip]

theorem good_lmaFsm : (lmaFsm conf d env info).Good [] [] ↔ ¬LmaDeletes conf d info := by
  simp only [lmaFsm]
  rw [good_pmipCacheExists free_nil, Daemon.pmipCacheExists_eq]
  cases type : d.cachedType info.mnNai info.mnServMagAddr with
  | noEntry =>
      refine iff_of_true good_lmaNoEntry fun deletes => ?_
      rw [deletes.isPmip] at type
      cases type
  | temp =>
      refine iff_of_true ((Path.good_pure [] [] _).mpr rfl) fun deletes => ?_
      rw [deletes.isPmip] at type
      cases type
  | pmip => exact good_lmaPmip type

theorem good_retransPbu (interrupted : Bool) (bce : Nat) :
    (pmipTimerRetransPbuHandler conf d env interrupted bce).Good [] [] := by
  simp only [pmipTimerRetransPbuHandler]
  rw [good_wrlock]
  refine ⟨rfl, ?_⟩
  split
  · rw [good_unlock rfl, Path.good_pure]
  · rw [good_wrlock]
    refine ⟨rfl, ?_⟩
    split
    · rw [good_unlock rfl, good_pmipBceDelete rfl, good_unlock rfl, Path.good_pure]
      exact ⟨List.mem_singleton_self _, rfl⟩
    · rw [Path.good_lift_bind]
      intro d' _
      rw [good_unlock rfl, good_unlock rfl, Path.good_pure]

theorem good_pmipCacheDelete (mnNai : Nai) (magAddr : In6Addr) :
    (pmipCacheDelete d mnNai magAddr).Good [] [] := by
  simp only [pmipCacheDelete]
  rw [good_wrlock]
  refine ⟨rfl, ?_⟩
  rcases d.pmipCacheGet mnNai magAddr with ⟨looked, _ | bce⟩
  · simp only
    rw [good_unlock rfl, Path.good_pure]
  · simp only
    rw [good_pmipBceDelete rfl, good_unlock rfl, Path.good_pure]
    exact ⟨List.mem_singleton_self _, rfl⟩

/-- An expired entry is deleted after its release: that of the anchor at once, that
of the gateway when its neighbour no longer answers. -/
def ExpiredDeletes (conf : Conf) (d : Daemon) (interrupted : Bool) (bce : Nat) : Prop :=
  interrupted = false ∧ Releasable conf d.tun (d.heap bce).tunnel ∧
    match conf.mip6Entity with
    | .ha => Registered d.clients (d.heap bce).mnNai (d.heap bce).mnServMagAddr
    | .mag => (d.heap bce).nRetsCounter = 0

theorem good_bceExpired (interrupted : Bool) (bce : Nat) :
    (pmipTimerBceExpiredHandler conf d env interrupted bce).Good [] [] ↔
      ¬ExpiredDeletes conf d interrupted bce := by
  have deleted : ∀ d',
      (do pmipcacheReleaseEntry bce; pmipBceDelete d' bce : LockedPath Daemon).Good
        [(.entry bce, .write), (.pmip, .write)] [] ↔ False := by
    intro d'
    rw [good_release free_nil, ← Path.bind_pure (pmipBceDelete d' bce),
      good_pmipBceDelete (free_nil.2 bce)]
    simp
  simp only [pmipTimerBceExpiredHandler, ExpiredDeletes]
  rw [good_wrlock]
  cases interrupted with
  | true =>
      simp only [if_true]
      rw [good_unlock rfl, Path.good_pure]
      simp [Held.owns]
  | false =>
      simp only [Bool.false_eq_true, if_false, true_and]
      rw [good_wrlock]
      cases conf.mip6Entity with
      | ha =>
          simp only [Path.good_lift_bind, deleted]
          rw [← lmaDereg_returns env none]
          simp [Held.owns]
      | mag =>
          simp only
          split
          · rename_i exhausted
            simp only [Path.good_lift_bind, deleted, exhausted, and_true]
            rw [← magDereg_returns env]
            simp [Held.owns]
          · rename_i answering
            rw [Path.good_lift_bind]
            refine iff_of_true ⟨rfl, rfl, ?_⟩ fun deletes => answering deletes.2
            intro d' _
            rw [good_unlock rfl, good_unlock rfl, Path.good_pure]

def CleanupDeletes (conf : Conf) (d : Daemon) : Prop :=
  ∃ bce rest, d.entries = bce :: rest ∧ Releasable conf d.tun (d.heap bce).tunnel

theorem good_pmipCleanup : (pmipCleanup conf d env).Good [] [] ↔ ¬CleanupDeletes conf d := by
  let unruled := d.emit (.ruleDel .mip6 ip6RulePrioMip6Fwd in6addrAny 0 in6addrAny 0)
  have unowned : ∀ bce, Held.owns [(CacheLock.pmip, Mode.read)] (.entry bce) = false := fun _ => rfl
  simp only [pmipCleanup, rdlock, Path.good_op_bind, CleanupDeletes]
  change _ ∧ Path.Good [(CacheLock.pmip, Mode.read)] []
    (deleteAll conf env unruled d.entries >>= _) ↔ _
  cases listed : d.entries with
  | nil =>
      simp only [deleteAll, Path.good_pure_bind]
      rw [good_unlock rfl, Path.good_pure]
      simp [LockOp.Allowed, Held.owns]
  | cons bce rest =>
      simp only [deleteAll, pmipCacheDeleteEach, Path.bind_assoc, Path.good_lift_bind,
        good_pmipBceDelete (unowned _)]
      have returns : (∃ d', removeRoutes conf unruled env bce = .ok d') ↔ _ :=
        removeRoutes_returns env
      have same : Releasable conf unruled.tun (unruled.heap bce).tunnel ↔
          Releasable conf d.tun (d.heap bce).tunnel := Iff.rfl
      rw [same] at returns
      constructor
      · intro kept deletes
        obtain ⟨first, others, isFirst, released⟩ := deletes
        cases isFirst
        obtain ⟨d', gone⟩ := returns.mpr released
        exact absurd (kept.2 d' gone).1 (by simp)
      · intro kept
        refine ⟨rfl, ?_⟩
        intro d' gone
        exact absurd ⟨bce, rest, rfl, returns.mp ⟨d', gone⟩⟩ kept

def Call.Deletes (conf : Conf) (d : Daemon) : Call → Prop
  | .magFsm info => MagDeletes conf d info
  | .lmaFsm info => LmaDeletes conf d info
  | .retransPbu _ _ => False
  | .bceExpired interrupted bce => ExpiredDeletes conf d interrupted bce
  | .cacheDelete _ _ => False
  | .cleanup => CleanupDeletes conf d

/-- In every state a call is orderly exactly if it is not one of those that delete
an entry without the write lock of the cache. -/
theorem call_orderly_iff (conf : Conf) (d : Daemon) (env : Env) (call : Call) :
    (call.path conf d env).Orderly ↔ ¬call.Deletes conf d := by
  rw [← Path.good_iff_orderly]
  cases call with
  | magFsm info => exact good_magFsm
  | lmaFsm info => exact good_lmaFsm
  | retransPbu interrupted bce => exact iff_of_true (good_retransPbu interrupted bce) not_false
  | bceExpired interrupted bce => exact good_bceExpired interrupted bce
  | cacheDelete mnNai magAddr => exact iff_of_true (good_pmipCacheDelete mnNai magAddr) not_false
  | cleanup => exact good_pmipCleanup

/-- A registered node is deregistered. -/
theorem dereg_disorderly :
    ¬ ∀ (inputs : List MagInput) (d : Daemon) (env : Env) (call : Call),
      run (Daemon.magStep (confDynamic .mag)) (Daemon.init Tunnels.init Daemon.twoNodes) inputs =
        .ok d → (call.path (confDynamic .mag) d env).Orderly := by
  intro claimed
  have orderly := claimed (Daemon.joins 1 0 10) _ (Env.ample ⟨110, 0⟩ 12)
    (.magFsm { MsgInfo.zero with msgEvent := .hasDEREG, mnNai := Daemon.nodeNai 1 }) rfl
  have disciplined := (disciplined_iff _ _).mpr orderly.allowed
  revert disciplined
  decide +kernel

end Calls

end Locked

end OaiPmip
