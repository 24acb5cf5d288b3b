import OaiPmip.Handshake
import OaiPmip.MagUplink
import OaiPmip.MhCodec

/-!
# Which acknowledgements register

`mh_pba_parse` does not look at the status, passes a lifetime of zero on, and
leaves the fields of absent options as they were on the stack; `mag_fsm` only
compares what it finds there with the entry.  So a waiting entry is registered
by a message that refuses the update, that ends the binding, or that carries no
option at all.
-/

set_option autoImplicit false

namespace OaiPmip

open OaiPmip.HashKeys OaiPmip.Runs OaiPmip.Msgs

def Effect.setsUp : Effect → Bool
  | .routeAdd _ _ _ _ => true
  | .ruleAdd _ _ _ _ _ _ => true
  | .tunnelAdd _ _ => true
  | _ => false

namespace Daemon

def setups (d : Daemon) : Nat := d.log.countP Effect.setsUp

structure Unregistered (d d' : Daemon) : Prop where
  types : ∀ p, (d'.heap p).type = .pmip → (d.heap p).type = .pmip
  setups : d'.setups = d.setups

namespace Unregistered

variable {d d' d'' : Daemon}

theorem refl (d : Daemon) : Unregistered d d := ⟨fun _ isPmip => isPmip, rfl⟩

theorem trans (first : Unregistered d d') (second : Unregistered d' d'') : Unregistered d d'' where
  types := fun p isPmip => first.types p (second.types p isPmip)
  setups := second.setups.trans first.setups

theorem bind {x : Outcome} {f : Daemon → Outcome} (before : Unregistered d (reached x))
    (after : ∀ next, x = .ok next → Unregistered next (reached (f next))) :
    Unregistered d (reached (x >>= f)) :=
  reached_bind (fun first second => first.trans second) before after

theorem of_frame {α : Type} {view : PmipEntry → α} {bce : Nat} (frame : Frame view bce d d')
    (type : (d'.heap bce).type = .pmip → (d.heap bce).type = .pmip)
    (setups : d'.setups = d.setups) : Unregistered d d' where
  types := by
    intro p isPmip
    by_cases here : p = bce
    · rw [here] at isPmip ⊢
      exact type isPmip
    · rw [frame.others p here] at isPmip
      exact isPmip
  setups := setups

theorem of_binding {bce : Nat} (frame : Frame PmipEntry.binding bce d d')
    (setups : d'.setups = d.setups) : Unregistered d d' :=
  of_frame frame (fun isPmip => frame.type ▸ isPmip) setups

end Unregistered

section Procedures
variable (conf : Conf) (d : Daemon) (env : Env) (bce : Nat)

theorem unregistered_touch (used : List Nat) : Unregistered d (d.touch used) :=
  ⟨fun _ isPmip => isPmip, rfl⟩

theorem unregistered_modify (write : PmipEntry → PmipEntry)
    (type : (write (d.heap bce)).type = .pmip → (d.heap bce).type = .pmip) :
    Unregistered d (d.modify bce write) := by
  refine ⟨?_, rfl⟩
  intro p isPmip
  by_cases here : p = bce
  · subst here
    apply type
    simpa [modify] using isPmip
  · simpa [modify, Function.update_of_ne here] using isPmip

theorem unregistered_delTask : Unregistered d (d.delTask bce) := ⟨fun _ isPmip => isPmip, rfl⟩

theorem unregistered_addTask (now timeOut : Timespec) (task : Task) :
    Unregistered d (d.addTask now timeOut bce task) :=
  Unregistered.of_frame (frame_addTask (fun e => e.type) d bce (fun _ _ => rfl) now timeOut task)
    (fun isPmip => by simpa [addTask, modify] using isPmip) rfl

theorem unregistered_mhSendPbu (src dst : In6Addr) (lifetime : Timespec) :
    Unregistered d (d.mhSendPbu env src dst bce lifetime) := by
  apply Unregistered.of_binding (frame_mhSendPbu d bce env src dst lifetime)
  simp only [mhSendPbu]
  split
  · simp [setups, modify, emit, touch, Effect.setsUp]
  · rfl

theorem unregistered_magKickoffRa : Unregistered d (d.magKickoffRa bce) := by
  apply Unregistered.of_binding (frame_magKickoffRa d bce)
  simp [setups, magKickoffRa, emit, touch, Effect.setsUp]

theorem unregistered_magForceUpdateRegistration :
    Unregistered d (d.magForceUpdateRegistration conf env bce) := by
  have stopped : Unregistered d
      (if (d.tun.tq.task (.bce bce)).isSome then d.delTask bce else d.touch [bce]) := by
    split
    · exact unregistered_delTask d bce
    · exact unregistered_touch d [bce]
  exact (stopped.trans (unregistered_mhSendPbu _ env bce _ _ _)).trans
    (unregistered_addTask _ bce _ _ _)

theorem unregistered_magUnroute : Unregistered d (d.magUnroute conf bce) := by
  refine ⟨?_, ?_⟩
  · intro p isPmip
    by_cases here : p = bce
    · subst here
      simp only [magUnroute, magRemoveRoute] at isPmip
      split at isPmip
      · simp [getMnAddr, modify, emit, touch] at isPmip
      · simp [getMnAddr, modify, emit, touch] at isPmip
    · rw [(frame_magUnroute conf d bce).others p here] at isPmip
      exact isPmip
  · simp only [magUnroute, magRemoveRoute]
    split
    · simp [setups, getMnAddr, modify, emit, touch, Effect.setsUp]
    · simp [setups, getMnAddr, modify, emit, touch, Effect.setsUp]

theorem unregistered_magUplinkDel : Unregistered d (d.magUplinkDel bce) := by
  simp only [magUplinkDel]
  split
  · exact ⟨fun _ isPmip => isPmip, by simp [setups, emit, Effect.setsUp]⟩
  · exact Unregistered.refl d

theorem unregistered_tunnelDel : Unregistered d (reached (d.pmipTunnelDel conf env bce)) := by
  simp only [pmipTunnelDel]
  split
  · exact Unregistered.refl d
  · exact ⟨fun _ isPmip => isPmip, by simp [setups, emit, Effect.setsUp]⟩

theorem unregistered_magDereg : Unregistered d (reached (d.magDereg conf env bce true)) := by
  have before := (unregistered_magUnroute conf d bce).trans (unregistered_magUplinkDel _ bce)
  apply Unregistered.bind (before.trans (unregistered_tunnelDel conf _ env bce))
  intro next _
  exact unregistered_mhSendPbu next env bce _ _ _

theorem unregistered_delete : Unregistered d (d.pmipBceDelete bce) := ⟨fun _ isPmip => isPmip, rfl⟩

theorem unregistered_registered {d : Daemon} {bce : Nat} (isPmip : (d.heap bce).type = .pmip) :
    Unregistered d (d.registered conf env bce) :=
  (unregistered_modify d bce _ fun _ => isPmip).trans (unregistered_addTask _ bce _ _ _)

end Procedures

/-! ## Events -/

/-- The acknowledgement that `mag_fsm` takes for that of a waiting entry. -/
def Accepts (conf : Conf) (d : Daemon) (info : MsgInfo) (p : Nat) : Prop :=
  info.msgEvent = .hasPBA ∧ info.dst = conf.magAddressEgress ∧
    d.cached info.mnNai conf.ourAddress = some p ∧ (d.heap p).type = .temp ∧
      isPbaResponse info (d.heap p) = true

instance (conf : Conf) (d : Daemon) (info : MsgInfo) (p : Nat) :
    Decidable (Accepts conf d info p) :=
  inferInstanceAs (Decidable (_ ∧ _ ∧ _ ∧ _ ∧ _))

section Events
variable {conf : Conf} {d : Daemon} {env : Env} {info : MsgInfo}

theorem unregistered_allocated (d : Daemon) (map : List MnidHnp) :
    Unregistered d { d.allocated .temp with hnp := map } := by
  refine ⟨?_, rfl⟩
  intro p isPmip
  by_cases new : p = d.top
  · subst new
    simp [allocated, PmipEntry.blank] at isPmip
  · simpa [allocated, Function.update_of_ne new] using isPmip

theorem unregistered_registering (conf : Conf) (d : Daemon) (env : Env) (info : MsgInfo)
    (map : List MnidHnp) (pfx : In6Addr) (nai : Nai) :
    Unregistered d (d.registering conf env info map pfx nai) := by
  have filled := (unregistered_allocated d map).trans
    (unregistered_modify _ d.top (fun e =>
      { e with
        mnNai := nai
        mnPrefix := pfx
        mnSuffix := info.mnIid
        mnHwAddress := eui64ToEui48 info.mnIid }) fun isPmip => isPmip)
  have moved := filled.trans (unregistered_modify _ d.top (fun e =>
    { e with
      ourAddr := conf.ourAddress
      mnSuffix := info.mnIid
      mnPrefix := pfx
      mnServMagAddr := conf.ourAddress
      mnServLmaAddr := conf.lmaAddress
      seqnoOut := 0
      pbuFlags := pbuFlagsAckPr
      link := info.iif
      mnLinkLocalAddr := linkLocalAddr info.mnIid
      type := .temp }) fun isPmip => by cases isPmip)
  exact (moved.trans (unregistered_mhSendPbu _ env d.top _ _ _)).trans
    (unregistered_addTask _ d.top _ _ _)

theorem unregistered_cacheAdd (conf : Conf) (d : Daemon) (env : Env) (bce : Nat) :
    Unregistered d (d.pmipCacheAdd conf env bce) := by
  have added := pmipCacheAdd_added conf d env bce
  refine ⟨?_, ?_⟩
  · intro p isPmip
    by_cases here : p = bce
    · subst here
      have type := congrArg PmipEntry.type added.entry
      simp only [PmipEntry.content] at type
      rw [← type]
      exact isPmip
    · rw [added.others p here] at isPmip
      exact isPmip
  · simp only [setups, (pmipCacheAdd_keeps conf d env bce).1]

theorem unregistered_magRegister (d : Daemon) :
    Unregistered d (reached (d.magRegister conf env info)) := by
  simp only [magRegister, pmipCacheAlloc_eq]
  cases env.entryAlloc with
  | false =>
      simp only [Bool.false_eq_true, if_false]
      split
      · exact ⟨fun _ isPmip => isPmip, rfl⟩
      · exact ⟨fun _ isPmip => isPmip, rfl⟩
      · rename_i isSome
        cases isSome
  | true =>
      simp only [if_true]
      split
      · exact unregistered_allocated d _
      · rename_i isNone
        cases isNone
      · rename_i pfx nai bce answer isTop
        cases isTop
        exact (unregistered_registering conf d env info _ pfx nai).trans
          (unregistered_cacheAdd conf _ env d.top)

theorem unregistered_magNoEntry (d : Daemon) :
    Unregistered d (reached (d.magNoEntry conf env info)) := by
  simp only [magNoEntry]
  split
  · split
    · exact unregistered_magRegister d
    · exact unregistered_magRegister d
    · exact unregistered_magRegister d
    · exact Unregistered.refl d
  · exact Unregistered.refl d

theorem unregistered_getEntry {mnNai : Nai} {magAddr : In6Addr} {f : Daemon × Nat → Outcome}
    (after : ∀ used bce, d.cached mnNai magAddr = some bce →
      Unregistered (d.touch used) (reached (f (d.touch used, bce)))) :
    Unregistered d (reached (d.getEntry mnNai magAddr >>= f)) := by
  rw [getEntry_eq]
  cases found : d.cached mnNai magAddr with
  | none => exact unregistered_touch d _
  | some bce => exact (unregistered_touch d _).trans (after _ bce found)

theorem unregistered_magTemp (used : List Nat) (rejected : ∀ p, ¬Accepts conf d info p)
    (arrived : info.msgEvent = .hasPBA → info.dst = conf.magAddressEgress)
    (isTemp : d.cachedType info.mnNai conf.ourAddress = .temp) :
    Unregistered (d.touch used) (reached ((d.touch used).magTemp conf env info)) := by
  simp only [magTemp]
  split
  · rename_i event
    apply unregistered_getEntry
    intro again bce found
    have noResponse : ¬isPbaResponse info (d.heap bce) = true := fun response =>
      rejected bce ⟨event, arrived event, found, cachedType_some isTemp found, response⟩
    have heap : ((d.touch used).touch again).heap bce = d.heap bce := rfl
    simp only [heap, if_neg noResponse]
    exact Unregistered.refl _
  · exact Unregistered.refl _

theorem unregistered_magPmip (used : List Nat)
    (isPmip : d.cachedType info.mnNai conf.ourAddress = .pmip) :
    Unregistered (d.touch used) (reached ((d.touch used).magPmip conf env info)) := by
  simp only [magPmip]
  split
  · -- a router solicitation
    apply unregistered_getEntry
    intro again bce _
    exact unregistered_magKickoffRa _ bce
  · -- an acknowledgement
    apply unregistered_getEntry
    intro again bce found
    have type : (d.heap bce).type = .pmip := cachedType_some isPmip found
    split
    · have shortened := (unregistered_delTask ((d.touch used).touch again) bce).trans
        (unregistered_modify _ bce (fun e =>
          { e with
            pbaFlags := info.pbaFlags
            lifetime := ⟨shortenLifetime info.lifetime.tvSec, 0⟩ }) fun isPmip => isPmip)
      refine (shortened.trans (unregistered_registered conf env ?_)).trans
        (unregistered_magKickoffRa _ bce)
      simpa [modify, delTask, touch] using type
    · exact Unregistered.refl _
  · apply unregistered_getEntry
    intro again bce _
    exact (unregistered_magKickoffRa _ bce).trans
      (unregistered_magForceUpdateRegistration conf _ env bce)
  · apply unregistered_getEntry
    intro again bce _
    exact (unregistered_magKickoffRa _ bce).trans
      (unregistered_magForceUpdateRegistration conf _ env bce)
  · -- a deassociation
    apply unregistered_getEntry
    intro again bce _
    apply Unregistered.bind (unregistered_magDereg conf _ env bce)
    intro next _
    exact unregistered_delete next bce
  · -- a neighbour advertisement
    apply unregistered_getEntry
    intro again bce _
    exact ((unregistered_modify _ bce _ fun isPmip => isPmip).trans
      (unregistered_delTask _ bce)).trans (unregistered_magForceUpdateRegistration conf _ env bce)
  · exact Unregistered.refl _

theorem unregistered_magFsm (rejected : ∀ p, ¬Accepts conf d info p) (env : Env) :
    Unregistered d (reached (d.magFsm conf env info)) := by
  simp only [magFsm]
  split
  · exact Unregistered.refl d
  · rename_i passed
    have arrived : info.msgEvent = .hasPBA → info.dst = conf.magAddressEgress := by
      intro event
      by_contra elsewhere
      exact passed ⟨event, elsewhere⟩
    rw [pmipCacheExists_eq]
    cases isType : d.cachedType info.mnNai conf.ourAddress with
    | noEntry => exact (unregistered_touch d _).trans (unregistered_magNoEntry _)
    | temp => exact (unregistered_touch d _).trans (unregistered_magTemp _ rejected arrived isType)
    | pmip => exact (unregistered_touch d _).trans (unregistered_magPmip _ isType)

end Events

/-- The reached state of an acknowledgement that is taken: the entry is
registered, even where opening the tunnel crashes, and no other is touched. -/
theorem accepts_registers {conf : Conf} {d : Daemon} {info : MsgInfo} {p : Nat}
    (accepts : Accepts conf d info p) (env : Env) :
    ((reached (d.magFsm conf env info)).heap p).type = .pmip ∧
      ∀ q, q ≠ p → (reached (d.magFsm conf env info)).heap q = d.heap q := by
  obtain ⟨event, here, found, isTemp, response⟩ := accepts
  have arrived : ¬(info.msgEvent = .hasPBA ∧ info.dst ≠ conf.magAddressEgress) :=
    fun elsewhere => elsewhere.2 here
  have isType : d.cachedType info.mnNai conf.ourAddress = .temp := by
    simp only [cachedType, found, isTemp]
  let looked := d.touch (d.walk ⟨info.mnNai, conf.ourAddress⟩ (d.chainOf ⟨info.mnNai, conf.ourAddress⟩))
  let again := looked.touch (looked.walk ⟨info.mnNai, conf.ourAddress⟩
    (looked.chainOf ⟨info.mnNai, conf.ourAddress⟩))
  let taken := (again.delTask p).modify p fun e =>
    { e with
      pbaFlags := info.pbaFlags
      lifetime := { e.lifetime with tvSec := shortenLifetime info.lifetime.tvSec } }
  have foundAgain : looked.cached info.mnNai conf.ourAddress = some p := found
  have steps : d.magFsm conf env info = taken.magEndRegistration conf env p info.iif := by
    have branch : d.magFsm conf env info = looked.magTemp conf env info := by
      simp only [magFsm, if_neg arrived, pmipCacheExists_eq, isType, looked]
    rw [branch]
    simp only [magTemp, event]
    rw [getEntry_eq, foundAgain]
    simp only [ok_bind]
    exact if_pos response
  rw [steps]
  have frame := (frame_magEndRegistration conf taken env p info.iif)
  refine ⟨?_, ?_⟩
  · have registered : ((taken.registered conf env p).heap p).type = .pmip := by
      simp [registered, pmipCacheStart, addTask, modify]
    have opened := frame_tunnelAdd (fun e => e.type) (taken.registered conf env p) p
      (fun _ _ => rfl) conf env conf.lmaAddress info.iif
    have ends : Frame (fun e => e.type) p (taken.registered conf env p)
        (reached (taken.magEndRegistration conf env p info.iif)) := by
      apply Frame.bind opened
      intro next _
      exact ((((frame_magUplinkAdd next p).trans (frame_magKickoffRa _ p)).trans
        (frame_getMnAddr _ p)).trans (frame_magSetupRoute conf _ p _ _)).kind
    exact ends.entry.trans registered
  · intro q other
    rw [frame.others q other]
    simp [taken, modify, delTask, touch, Function.update_of_ne other, again, looked]

/-- An event has registered the entry, or set up a route or a tunnel for the
node whose entry it is. -/
def SetsUp (conf : Conf) (d : Daemon) (info : MsgInfo) (p : Nat) (d' : Daemon) : Prop :=
  ((d.heap p).type ≠ .pmip ∧ (d'.heap p).type = .pmip) ∨
    (d.cached info.mnNai conf.ourAddress = some p ∧ d.setups < d'.setups)

theorem setsUp_iff (conf : Conf) (d : Daemon) (env : Env) (info : MsgInfo) (p : Nat) :
    SetsUp conf d info p (reached (d.magFsm conf env info)) ↔ Accepts conf d info p := by
  constructor
  · intro setsUp
    by_cases taken : ∃ q, Accepts conf d info q
    · obtain ⟨q, accepts⟩ := taken
      by_cases same : q = p
      · exact same ▸ accepts
      · obtain ⟨-, others⟩ := accepts_registers accepts env
        rcases setsUp with ⟨was, becomes⟩ | ⟨found, -⟩
        · rw [others p (Ne.symm same)] at becomes
          exact absurd becomes was
        · exact absurd (Option.some.inj (accepts.2.2.1.symm.trans found)) same
    · have quiet := unregistered_magFsm (fun q accepts => taken ⟨q, accepts⟩) env
      rcases setsUp with ⟨was, becomes⟩ | ⟨-, more⟩
      · exact absurd (quiet.types p becomes) was
      · rw [quiet.setups] at more
        exact absurd more (Nat.lt_irrefl _)
  · intro accepts
    refine Or.inl ⟨?_, (accepts_registers accepts env).1⟩
    rw [accepts.2.2.2.1]
    exact fun same => by cases same

/-! ## Positive acknowledgements -/

def pbaStatus (m : Received) : UInt8 := m.mh 6

/-- The message accepts the last update that was sent for an entry: its status
and its lifetime say so, and it repeats the update's sequence number, time
stamp, prefix and identifier.  An update without a time stamp counts as zero. -/
structure Positive (dupBeyond : Nat → Bool) (e : PmipEntry) (m : Received) : Prop where
  status : (pbaStatus m).toNat < 128
  echoes : ∃ pba pbu, decodePba dupBeyond m = some pba ∧ e.mhVec = some pbu ∧
    pba.lifetime ≠ 0 ∧ pba.seqno = pbu.seqno ∧
    pba.options.timestamp = some (pbu.timestamp.getD ⟨0, 0⟩) ∧
    pba.options.mnPrefix = some pbu.mnPrefix ∧ pba.options.mnId = some pbu.mnId

/-- The message is a whole acknowledgement that does not refuse, with the three
options, and an update was sent. -/
def Complete (dupBeyond : Nat → Bool) (e : PmipEntry) (m : Received) : Prop :=
  (pbaStatus m).toNat < 128 ∧ e.mhVec.isSome ∧
    ∃ pba, decodePba dupBeyond m = some pba ∧ pba.lifetime ≠ 0 ∧
      pba.options.timestamp.isSome ∧ pba.options.mnPrefix.isSome ∧ pba.options.mnId.isSome

theorem Positive.complete {dupBeyond : Nat → Bool} {e : PmipEntry} {m : Received}
    (positive : Positive dupBeyond e m) : Complete dupBeyond e m := by
  obtain ⟨status, pba, pbu, decoded, kept, alive, -, timestamp, mnPrefix, mnId⟩ := positive
  refine ⟨status, by simp [kept], pba, decoded, alive, ?_, ?_, ?_⟩
  · simp [timestamp]
  · simp [mnPrefix]
  · simp [mnId]

theorem Complete.positive {dupBeyond : Nat → Bool} {e : PmipEntry} {m : Received}
    {stack : MsgInfo} (complete : Complete dupBeyond e m) (ready : e.Ready)
    (response : isPbaResponse (mhPbaParse dupBeyond stack m) e = true) :
    Positive dupBeyond e m := by
  obtain ⟨status, sent, pba, decoded, alive, hasTimestamp, hasPrefix, hasId⟩ := complete
  obtain ⟨pbu, kept⟩ := Option.isSome_iff_exists.mp sent
  obtain ⟨timestamp, isTimestamp⟩ := Option.isSome_iff_exists.mp hasTimestamp
  obtain ⟨pfx, isPrefix⟩ := Option.isSome_iff_exists.mp hasPrefix
  obtain ⟨mnId, isId⟩ := Option.isSome_iff_exists.mp hasId
  have awaits := ready pbu kept
  simp only [isPbaResponse, mhPbaParse, decoded, fillPba, fillOptions, isTimestamp, isPrefix, isId,
    Option.map_some, Option.getD_some, decide_eq_true_eq] at response
  obtain ⟨sameSeqno, sameTimestamp, samePrefix, sameIid⟩ := response
  refine ⟨status, pba, pbu, decoded, kept, alive, ?_, ?_, ?_, ?_⟩
  · rw [awaits.seqno, sameSeqno]
  · rw [awaits.timestamp, isTimestamp, sameTimestamp]
  · rw [awaits.mnPrefix, isPrefix, samePrefix]
  · rw [awaits.mnId, isId, ← sameIid, mnidOf_iidOf]

theorem ready_reached {conf : Conf} (isMag : conf.mip6Entity = .mag) {tun : Tunnels}
    {hnp : List MnidHnp} {inputs : List MagInput} {d : Daemon}
    (finished : run (magStep conf) (init tun hnp) inputs = .ok d) : ∀ p, (d.heap p).Ready := by
  have start : ∀ p, ((init tun hnp).heap p).Ready := fun p pbu kept => by cases kept
  exact run_invariant
    (fun _ _ _ ready (_ : True) taken => ready_move ready (magStep_move isMag taken))
    start (meets_always (fun _ _ => trivial) inputs _) finished

/-- In every state the gateway can reach, an acknowledgement registers an entry
only positively exactly where, if it is taken for the entry, it does not refuse,
has all three options, and an update was sent. -/
theorem positive_registers_iff (conf : Conf) (isMag : conf.mip6Entity = .mag)
    (dupBeyond : Nat → Bool) (tun : Tunnels) (hnp : List MnidHnp) (inputs : List MagInput)
    (d : Daemon) (finished : run (magStep conf) (init tun hnp) inputs = .ok d) (env : Env)
    (stack : MsgInfo) (m : Received) (p : Nat) :
    (SetsUp conf d (mhPbaParse dupBeyond stack m) p
        (reached (d.pmipMagRecvPba conf dupBeyond env stack m)) →
      Positive dupBeyond (d.heap p) m) ↔
      (Accepts conf d (mhPbaParse dupBeyond stack m) p → Complete dupBeyond (d.heap p) m) := by
  have ready := ready_reached isMag finished p
  simp only [pmipMagRecvPba, setsUp_iff]
  constructor
  · intro only accepts
    exact (only accepts).complete
  · intro whole accepts
    exact (whole accepts).positive ready accepts.2.2.2.2

def waiting : List MagInput := (joins 1 0 10).take 1

def answerWith (status : UInt8) : Received where
  mh := fun i => (pbaBytes .little
    { status := status
      flags := 0
      seqno := 0
      lifetime := 2
      mnNai := nodeNai 1
      mnPrefix := in6addrAny
      mnId := mnidOf (nodeIid 1)
      timestamp := ⟨0, 6553600⟩ }).getD i 0
  len := 132
  src := in6addrLoopback
  dst := in6addrLoopback
  iif := 0

theorem positive_registers_iff_accepted :
    ∃ d, run (magStep (confDynamic .mag)) (init Tunnels.init twoNodes) waiting = .ok d ∧
      Positive (fun _ => false) (d.heap 0) (answerWith 0) := by
  refine ⟨_, rfl, ?_⟩
  apply (positive_registers_iff (confDynamic .mag) rfl (fun _ => false) Tunnels.init twoNodes
    waiting _ rfl (Env.ample ⟨101, 0⟩ 10) MsgInfo.zero (answerWith 0) 0).mpr
  · intro _
    exact ⟨by decide, by decide +kernel, _, rfl, by decide +kernel, by decide +kernel,
      by decide +kernel, by decide +kernel⟩
  · exact (setsUp_iff _ _ _ _ _).mpr (by decide +kernel)

/-- A refusal registers the node. -/
theorem refusal_registers :
    ¬ ∀ (inputs : List MagInput) (d : Daemon) (env : Env) (stack : MsgInfo) (m : Received) (p : Nat),
      run (magStep (confDynamic .mag)) (init Tunnels.init twoNodes) inputs = .ok d →
        SetsUp (confDynamic .mag) d (mhPbaParse (fun _ => false) stack m) p
          (reached (d.pmipMagRecvPba (confDynamic .mag) (fun _ => false) env stack m)) →
        Positive (fun _ => false) (d.heap p) m := by
  intro claimed
  have positive := claimed waiting _ (Env.ample ⟨101, 0⟩ 10) MsgInfo.zero (answerWith 128) 0 rfl
    ((setsUp_iff _ _ _ _ _).mpr (by decide +kernel))
  have accepted := positive.status
  revert accepted
  decide

end Daemon

end OaiPmip
