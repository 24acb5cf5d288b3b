import OaiPmip.CacheOk

/-!
# What one step of the gateway can do

`magStep` is one event handed to `mag_fsm` or one turn of the timer queue.
`magStep_move` lists everything a step can come to: a lookup without
consequence, an entry that is allocated and lost, a new registration, work on
one entry that leaves its binding as it is, the end of a registration, a
deregistration, an entry dropped after its last retransmission, and the expiry
of a tunnel.  The invariants of the gateway are proved from this list.
-/

set_option autoImplicit false

namespace OaiPmip

open OaiPmip.HashKeys OaiPmip.Runs

inductive MagInput where
  | event (info : MsgInfo) (env : Env)
  | fire (env : Env)

def MagInput.env : MagInput → Env
  | .event _ env => env
  | .fire env => env

namespace Daemon

def magStep (conf : Conf) (d : Daemon) : MagInput → Outcome
  | .event info env => d.magFsm conf env info
  | .fire env => d.fire conf env

/-- The net effect of the calls on the default route through a tunnel in the
table of the tunnelled traffic. -/
def uplinkInstalled : List Effect → Int → Bool
  | [], _ => false
  | effect :: before, tunnel =>
      if effect = .routeAdd tunnel .pmip in6addrAny 0 then true
      else if effect = .routeDel tunnel .pmip in6addrAny 0 then false
      else uplinkInstalled before tunnel

end Daemon

/-- The tunnels, their timers and the uplink routes are as they were. -/
structure Steady (d d' : Daemon) : Prop where
  ctl : d'.tun.ctl = d.tun.ctl
  timers : d'.tun.timers = d.tun.timers
  tasks : ∀ mag, .tunnel mag ∈ d'.tun.tq.list ↔ .tunnel mag ∈ d.tun.tq.list
  uplink : Daemon.uplinkInstalled d'.log = Daemon.uplinkInstalled d.log

namespace Steady

variable {d d' d'' : Daemon}

theorem refl (d : Daemon) : Steady d d := ⟨rfl, rfl, fun _ => Iff.rfl, rfl⟩

theorem trans (first : Steady d d') (second : Steady d' d'') : Steady d d'' where
  ctl := second.ctl.trans first.ctl
  timers := second.timers.trans first.timers
  tasks := fun mag => (second.tasks mag).trans (first.tasks mag)
  uplink := second.uplink.trans first.uplink

end Steady

namespace Daemon

section Steady
variable (conf : Conf) (d : Daemon) (env : Env) (bce : Nat)

def OffUplink (effect : Effect) : Prop :=
  ∀ tunnel, effect ≠ .routeAdd tunnel .pmip in6addrAny 0 ∧
    effect ≠ .routeDel tunnel .pmip in6addrAny 0

theorem steady_touch (used : List Nat) : Steady d (d.touch used) :=
  ⟨rfl, rfl, fun _ => Iff.rfl, rfl⟩

theorem steady_modify (write : PmipEntry → PmipEntry) : Steady d (d.modify bce write) :=
  ⟨rfl, rfl, fun _ => Iff.rfl, rfl⟩

theorem steady_emit {effect : Effect} (off : OffUplink effect) : Steady d (d.emit effect) where
  ctl := rfl
  timers := rfl
  tasks := fun _ => Iff.rfl
  uplink := by
    funext tunnel
    simp only [emit, uplinkInstalled, if_neg (off tunnel).1, if_neg (off tunnel).2]

theorem steady_delTask : Steady d (d.delTask bce) where
  ctl := rfl
  timers := rfl
  tasks := fun mag => by simp [delTask]
  uplink := rfl

theorem steady_addTask (now timeOut : Timespec) (task : Task) :
    Steady d (d.addTask now timeOut bce task) where
  ctl := rfl
  timers := rfl
  tasks := fun mag => by simp [addTask, modify, touch]
  uplink := rfl

theorem offUplink_sendPbu (src dst : In6Addr) (pbu : Pbu) (oif : Int) :
    OffUplink (.sendPbu src dst pbu oif) :=
  fun _ => ⟨by simp, by simp⟩

theorem steady_mhSendPbu (src dst : In6Addr) (lifetime : Timespec) :
    Steady d (d.mhSendPbu env src dst bce lifetime) := by
  simp only [mhSendPbu]
  split
  · have counted : Steady d { d with sequence := d.sequence + 1 } :=
      ⟨rfl, rfl, fun _ => Iff.rfl, rfl⟩
    exact ((counted.trans (steady_modify _ bce _)).trans
      (steady_emit _ (offUplink_sendPbu _ _ _ _))).trans (steady_modify _ bce _)
  · exact Steady.refl d

theorem steady_magKickoffRa : Steady d (d.magKickoffRa bce) :=
  (steady_touch d [bce]).trans (steady_emit _ fun _ => ⟨by simp, by simp⟩)

theorem steady_registered : Steady d (d.registered conf env bce) :=
  (steady_modify d bce _).trans (steady_addTask _ bce _ _ _)

theorem offUplink_rule (table : RtTable) (prio : Nat) (src : In6Addr) (srcLen : Nat)
    (dst : In6Addr) (dstLen : Nat) :
    OffUplink (.ruleAdd table prio src srcLen dst dstLen) ∧
      OffUplink (.ruleDel table prio src srcLen dst dstLen) :=
  ⟨fun _ => ⟨by simp, by simp⟩, fun _ => ⟨by simp, by simp⟩⟩

theorem offUplink_mip6 (oif : Int) (dst : In6Addr) (dstLen : Nat) :
    OffUplink (.routeAdd oif .mip6 dst dstLen) ∧ OffUplink (.routeDel oif .mip6 dst dstLen) :=
  ⟨fun _ => ⟨by simp, by simp⟩, fun _ => ⟨by simp, by simp⟩⟩

theorem steady_magSetupRoute (pmip6Addr : In6Addr) (downlink : Int) :
    Steady d (d.magSetupRoute conf pmip6Addr downlink) := by
  simp only [magSetupRoute]
  split
  · exact ((steady_emit d (offUplink_rule _ _ _ _ _ _).1).trans
      (steady_emit _ (offUplink_rule _ _ _ _ _ _).1)).trans (steady_emit _ (offUplink_mip6 _ _ _).1)
  · exact (steady_emit d (offUplink_rule _ _ _ _ _ _).1).trans
      (steady_emit _ (offUplink_mip6 _ _ _).1)

theorem steady_magRemoveRoute (pmip6Addr : In6Addr) (downlink : Int) :
    Steady d (d.magRemoveRoute conf pmip6Addr downlink) := by
  simp only [magRemoveRoute]
  split
  · exact ((steady_emit d (offUplink_rule _ _ _ _ _ _).2).trans
      (steady_emit _ (offUplink_rule _ _ _ _ _ _).2)).trans (steady_emit _ (offUplink_mip6 _ _ _).2)
  · exact (steady_emit d (offUplink_rule _ _ _ _ _ _).2).trans
      (steady_emit _ (offUplink_mip6 _ _ _).2)

theorem steady_magUnroute : Steady d (d.magUnroute conf bce) :=
  ((steady_modify d bce _).trans (steady_modify _ bce _)).trans (steady_magRemoveRoute conf _ _ _)

end Steady

end Daemon

/-! ## Work on one entry -/

def Effect.IsMessage : Effect → Prop
  | .sendPbu _ _ _ _ | .sendPba _ _ _ _ | .sendRa _ _ _ | .sendNs _ _ => True
  | _ => False

theorem Effect.isMessage_sendPbu (src dst : In6Addr) (pbu : Pbu) (oif : Int) :
    (Effect.sendPbu src dst pbu oif).IsMessage := trivial

theorem Effect.isMessage_sendNs (link : Int) (target : In6Addr) :
    (Effect.sendNs link target).IsMessage := trivial

def updates (log : List Effect) : List Pbu :=
  log.filterMap fun
    | .sendPbu _ _ pbu _ => some pbu
    | _ => none

theorem updates_append (first second : List Effect) :
    updates (first ++ second) = updates first ++ updates second :=
  List.filterMap_append

/-- The message that an entry keeps and the fields that an acknowledgement of it
is compared with. -/
def PmipEntry.spoken (e : PmipEntry) : Option Pbu × UInt16 × Ip6ts × In6Addr × In6Addr :=
  (e.mhVec, e.seqnoOut, e.timestamp, e.mnPrefix, e.mnSuffix)

structure Awaits (e : PmipEntry) (pbu : Pbu) : Prop where
  kept : e.mhVec = some pbu
  seqno : pbu.seqno = e.seqnoOut
  timestamp : pbu.timestamp.getD ⟨0, 0⟩ = e.timestamp
  mnPrefix : pbu.mnPrefix = e.mnPrefix
  mnId : pbu.mnId = Daemon.mnidOf e.mnSuffix

theorem Awaits.congr {e e' : PmipEntry} {pbu : Pbu} (awaits : Awaits e pbu)
    (same : e'.spoken = e.spoken) : Awaits e' pbu := by
  simp only [PmipEntry.spoken, Prod.mk.injEq] at same
  obtain ⟨kept, seqno, timestamp, mnPrefix, mnSuffix⟩ := same
  exact {
    kept := kept.trans awaits.kept
    seqno := awaits.seqno.trans seqno.symm
    timestamp := awaits.timestamp.trans timestamp.symm
    mnPrefix := awaits.mnPrefix.trans mnPrefix.symm
    mnId := awaits.mnId.trans (congrArg Daemon.mnidOf mnSuffix.symm) }

def PmipEntry.Ready (e : PmipEntry) : Prop := ∀ pbu, e.mhVec = some pbu → Awaits e pbu

def Said (bce : Nat) (d d' : Daemon) : Prop :=
  updates d'.log = updates d.log ∧ (d'.heap bce).spoken = (d.heap bce).spoken ∨
    ∃ pbu, (updates d'.log).head? = some pbu ∧ Awaits (d'.heap bce) pbu

theorem Said.ready {bce : Nat} {d d' : Daemon} (said : Said bce d d')
    (before : (d.heap bce).Ready) : (d'.heap bce).Ready := by
  intro pbu kept
  rcases said with ⟨_, same⟩ | ⟨sent, _, awaits⟩
  · have still := (congrArg Prod.fst same).symm.trans kept
    exact (before pbu still).congr same
  · obtain rfl := Option.some.inj (awaits.kept.symm.trans kept)
    exact awaits

theorem Said.trans {bce : Nat} {d d' d'' : Daemon} (first : Said bce d d')
    (second : Said bce d' d'') : Said bce d d'' := by
  rcases second with ⟨quiet, same⟩ | sent
  · rcases first with ⟨before, earlier⟩ | ⟨pbu, newest, awaits⟩
    · exact Or.inl ⟨quiet.trans before, same.trans earlier⟩
    · exact Or.inr ⟨pbu, by rw [quiet, newest], awaits.congr same⟩
  · exact Or.inr sent

/-- Work on an entry that leaves its binding, the tunnels and the routes alone:
messages are sent, the entry's address is at most computed again, and its expiry
timer is at most started again or started for a registered node. -/
structure Worked (bce : Nat) (d d' : Daemon) : Prop where
  frame : Frame PmipEntry.binding bce d d'
  steady : Steady d d'
  spoke : ∃ sent, d'.log = sent ++ d.log ∧ ∀ effect ∈ sent, effect.IsMessage
  said : (d.heap bce).Ready → Said bce d d'
  timer : d'.tun.tq.task (.bce bce) = some .bceExpired →
    d.tun.tq.task (.bce bce) = some .bceExpired ∨ (d.heap bce).type = .pmip
  addr : (d'.heap bce).mnAddr = (d.heap bce).mnAddr ∨
    (d'.heap bce).mnAddr = convertId2Addr (d.heap bce).mnPrefix (d.heap bce).mnSuffix

namespace Worked

variable {bce : Nat} {d d' d'' : Daemon}

theorem refl (bce : Nat) (d : Daemon) : Worked bce d d where
  frame := Frame.refl _ bce d
  steady := Steady.refl d
  spoke := ⟨[], rfl, fun _ member => by cases member⟩
  said := fun _ => Or.inl ⟨rfl, rfl⟩
  timer := Or.inl
  addr := Or.inl rfl

theorem trans (first : Worked bce d d') (second : Worked bce d' d'') : Worked bce d d'' where
  frame := first.frame.trans second.frame
  steady := first.steady.trans second.steady
  spoke := by
    obtain ⟨before, isBefore, early⟩ := first.spoke
    obtain ⟨after, isAfter, late⟩ := second.spoke
    refine ⟨after ++ before, by rw [isAfter, isBefore, List.append_assoc], fun effect member => ?_⟩
    rcases List.mem_append.mp member with here | there
    · exact late effect here
    · exact early effect there
  said := fun ready => (first.said ready).trans (second.said ((first.said ready).ready ready))
  timer := by
    intro expiring
    rcases second.timer expiring with before | isPmip
    · exact first.timer before
    · exact Or.inr (first.frame.type.symm.trans isPmip)
  addr := by
    have pfx := congrArg PmipEntry.mnPrefix first.frame.entry
    have suffix := congrArg PmipEntry.mnSuffix first.frame.entry
    simp only [PmipEntry.binding] at pfx suffix
    rcases second.addr with same | computed
    · rw [same]
      exact first.addr
    · rw [computed, pfx, suffix]
      exact Or.inr rfl

end Worked

namespace Daemon

section Worked
variable (conf : Conf) (d : Daemon) (env : Env) (bce : Nat)

theorem worked_modify (write : PmipEntry → PmipEntry)
    (kept : (write (d.heap bce)).binding = (d.heap bce).binding)
    (silent : (write (d.heap bce)).spoken = (d.heap bce).spoken)
    (addr : (write (d.heap bce)).mnAddr = (d.heap bce).mnAddr ∨ (write (d.heap bce)).mnAddr =
      convertId2Addr (d.heap bce).mnPrefix (d.heap bce).mnSuffix) :
    Worked bce d (d.modify bce write) :=
  { Worked.refl bce d with
    frame := frame_modify _ d bce _ kept
    steady := steady_modify d bce write
    said := fun _ => Or.inl ⟨rfl, by simpa only [modify, Function.update_self] using silent⟩
    addr := by simpa only [modify, Function.update_self] using addr }

theorem worked_touch : Worked bce d (d.touch [bce]) :=
  { Worked.refl bce d with
    frame := frame_touch _ d bce
    steady := steady_touch d [bce] }

theorem worked_lookup (k : PmipKey) : Worked bce d (d.touch (d.walk k (d.chainOf k))) :=
  { Worked.refl bce d with
    frame := frame_lookup _ d bce k
    steady := steady_touch d _ }

theorem Effect.IsMessage.offUplink {effect : Effect} (message : effect.IsMessage) :
    OffUplink effect := by
  intro tunnel
  constructor
  · intro same
    subst same
    exact message
  · intro same
    subst same
    exact message

theorem worked_emit {effect : Effect} (message : effect.IsMessage) (silent : updates [effect] = []) :
    Worked bce d (d.emit effect) :=
  { Worked.refl bce d with
    frame := frame_emit _ d bce effect
    steady := steady_emit d (Effect.IsMessage.offUplink message)
    spoke := ⟨[effect], rfl, fun other member => by rwa [List.mem_singleton.mp member]⟩
    said := by
      intro _
      refine Or.inl ⟨?_, rfl⟩
      change updates ([effect] ++ d.log) = updates d.log
      rw [updates_append, silent, List.nil_append] }

theorem worked_delTask : Worked bce d (d.delTask bce) :=
  { Worked.refl bce d with
    frame := frame_delTask _ d bce
    steady := steady_delTask d bce }

theorem worked_popped : Worked bce d (d.popped (.bce bce)) :=
  { Worked.refl bce d with
    frame := frame_popped _ d bce
    steady := { Steady.refl d with tasks := fun mag => by simp [popped] } }

theorem worked_getMnAddr : Worked bce d (d.getMnAddr bce) :=
  worked_modify d bce _ rfl rfl (Or.inr rfl)

theorem worked_addTask (now timeOut : Timespec) {task : Task}
    (allowed : task = .bceExpired →
      d.tun.tq.task (.bce bce) = some .bceExpired ∨ (d.heap bce).type = .pmip) :
    Worked bce d (d.addTask now timeOut bce task) where
  frame := frame_addTask _ d bce (fun _ _ => rfl) now timeOut task
  steady := steady_addTask d bce now timeOut task
  spoke := ⟨[], rfl, fun _ member => by cases member⟩
  said := fun _ => Or.inl ⟨rfl, by simp [addTask, modify, PmipEntry.spoken]⟩
  timer := by
    intro expiring
    simp only [addTask, TQueue.addTaskAbs_task, Function.update_self, Option.some.injEq] at expiring
    exact allowed expiring
  addr := by simp [addTask, modify]

theorem worked_startRetransmission : Worked bce d (d.startRetransmission conf env bce) :=
  worked_addTask d bce _ _ (fun isExpiry => by cases isExpiry)

theorem worked_mhSendPbu (src dst : In6Addr) (lifetime : Timespec) :
    Worked bce d (d.mhSendPbu env src dst bce lifetime) := by
  cases memory : env.mhAlloc with
  | false =>
      have nothing : d.mhSendPbu env src dst bce lifetime = d := by simp [mhSendPbu, memory]
      rw [nothing]
      exact Worked.refl bce d
  | true =>
      have log := mhSendPbu_log d memory src dst bce lifetime
      have entry := mhSendPbu_entry d memory src dst bce lifetime
      have tun : (d.mhSendPbu env src dst bce lifetime).tun = d.tun := by
        simp [mhSendPbu, memory, modify, emit, touch]
      exact {
        frame := frame_mhSendPbu d bce env src dst lifetime
        steady := steady_mhSendPbu d env bce src dst lifetime
        spoke := by
          refine ⟨[_], log, fun effect member => ?_⟩
          rw [List.mem_singleton.mp member]
          exact Effect.isMessage_sendPbu _ _ _ _
        said := by
          intro _
          refine Or.inr ⟨pbuOf d env bce lifetime, by rw [log]; rfl, ?_⟩
          rw [entry]
          exact ⟨rfl, rfl, pbuOf_timestamp d env bce lifetime, rfl, rfl⟩
        timer := by
          rw [tun]
          exact Or.inl
        addr := by
          rw [entry]
          exact Or.inl rfl }

theorem worked_magKickoffRa : Worked bce d (d.magKickoffRa bce) :=
  (worked_touch d bce).trans (worked_emit _ bce trivial rfl)

theorem worked_magForceUpdateRegistration :
    Worked bce d (d.magForceUpdateRegistration conf env bce) := by
  have stopped : Worked bce d
      (if (d.tun.tq.task (.bce bce)).isSome then d.delTask bce else d.touch [bce]) := by
    split
    · exact worked_delTask d bce
    · exact worked_touch d bce
  exact (stopped.trans (worked_mhSendPbu _ env bce _ _ _)).trans
    (worked_startRetransmission conf _ env bce)

theorem worked_registered {d : Daemon} {bce : Nat} (isPmip : (d.heap bce).type = .pmip) :
    Worked bce d (d.registered conf env bce) := by
  have again : Worked bce d (d.modify bce fun e =>
      { e with type := .pmip, nRetsCounter := conf.maxMessageRetransmissions }) := by
    refine worked_modify d bce _ ?_ rfl (Or.inl rfl)
    simp [PmipEntry.binding, isPmip]
  refine again.trans (worked_addTask _ bce _ _ fun _ => Or.inr ?_)
  simp [modify]

theorem worked_retransmitted {d : Daemon} {bce : Nat} {pbu : Pbu}
    (kept : (d.heap bce).mhVec = some pbu) :
    Worked bce d (d.retransmitted conf env bce { pbu with seqno := UInt16.ofNat d.sequence }) := by
  let renewed := { pbu with seqno := UInt16.ofNat d.sequence }
  let sent := (({ d with sequence := d.sequence + 1 }.modify bce fun e =>
    { e with nRetsCounter := e.nRetsCounter - 1, seqnoOut := UInt16.ofNat d.sequence }).modify bce
      fun e => { e with mhVec := some renewed }).emit
        (.sendPbu conf.ourAddress conf.lmaAddress renewed (d.heap bce).link)
  have entry : sent.heap bce =
      { d.heap bce with
        nRetsCounter := (d.heap bce).nRetsCounter - 1
        seqnoOut := UInt16.ofNat d.sequence
        mhVec := some renewed } := by
    simp [sent, modify, emit]
  have counted : Frame PmipEntry.binding bce d { d with sequence := d.sequence + 1 } :=
    { Frame.refl _ bce d with }
  have tells : Worked bce d sent := {
    frame := ((counted.trans (frame_modify _ _ bce _ rfl)).trans
      (frame_modify _ _ bce _ rfl)).trans (frame_emit _ _ bce _)
    steady := by
      have emitted := steady_emit d (offUplink_sendPbu conf.ourAddress conf.lmaAddress renewed
        (d.heap bce).link)
      exact ⟨emitted.ctl, emitted.timers, emitted.tasks, emitted.uplink⟩
    spoke := by
      refine ⟨[_], rfl, fun effect member => ?_⟩
      rw [List.mem_singleton.mp member]
      exact Effect.isMessage_sendPbu _ _ _ _
    said := by
      intro ready
      have awaits := ready pbu kept
      refine Or.inr ⟨renewed, rfl, ?_⟩
      rw [entry]
      exact ⟨rfl, rfl, awaits.timestamp, awaits.mnPrefix, awaits.mnId⟩
    timer := Or.inl
    addr := by
      rw [entry]
      exact Or.inl rfl }
  exact tells.trans (worked_startRetransmission conf _ env bce)

end Worked

/-! ## The moves -/

/-- The events that make `mag_fsm` register an unknown node. -/
def StartsRegistration (conf : Conf) (info : MsgInfo) : Prop :=
  info.iif = conf.ingressIif ∧
    (info.msgEvent = .hasRS ∨ info.msgEvent = .hasWLCCP ∨ info.msgEvent = .hasODTONELinkEvent)

instance (conf : Conf) (info : MsgInfo) : Decidable (StartsRegistration conf info) :=
  inferInstanceAs (Decidable (_ ∧ _))

/-- The new entry of a registration, before `pmip_cache_add`. -/
def registering (conf : Conf) (d : Daemon) (env : Env) (info : MsgInfo) (map : List MnidHnp)
    (pfx : In6Addr) (nai : Nai) : Daemon :=
  let d' := { d.allocated .temp with hnp := map }.modify d.top fun e =>
    { e with
      mnNai := nai
      mnPrefix := pfx
      mnSuffix := info.mnIid
      mnHwAddress := eui64ToEui48 info.mnIid }
  d'.magPmipMd conf env { info with mnPrefix := pfx } d.top

/-- The entry that a step deregisters: that of a node which left, or one whose
neighbour has not answered and whose timer ran out. -/
def deregisters (conf : Conf) (d : Daemon) : MagInput → Option Nat
  | .event info _ =>
      if info.msgEvent = .hasDEREG ∧ d.cachedType info.mnNai conf.ourAddress = .pmip then
        d.cached info.mnNai conf.ourAddress
      else none
  | .fire env =>
      match d.tun.tq.runner env.now with
      | some (.bce bce, tq) =>
          if tq.task (.bce bce) = some .bceExpired ∧ (d.heap bce).nRetsCounter = 0 then some bce
          else none
      | _ => none

/-- The entry that a step gives up: one whose update was not answered and whose
retransmissions are used up. -/
def exhausts (d : Daemon) : MagInput → Option Nat
  | .event _ _ => none
  | .fire env =>
      match d.tun.tq.runner env.now with
      | some (.bce bce, tq) =>
          if tq.task (.bce bce) = some .retransPbu ∧ (d.heap bce).nRetsCounter = 0 then some bce
          else none
      | _ => none

/-- An entry that a step may work on: one of the cache, or one whose timer is
queued. -/
def Known (d : Daemon) (bce : Nat) : Prop := bce ∈ d.entries ∨ .bce bce ∈ d.tun.tq.list

end Daemon

open Daemon

inductive MagMove (conf : Conf) (d : Daemon) : MagInput → Daemon → Prop where
  | looked {input : MagInput} (used : List Nat) : MagMove conf d input (d.touch used)
  | leaked {input : MagInput} (used : List Nat) :
      MagMove conf d input ((d.touch used).allocated .temp)
  | registered {info : MsgInfo} {env : Env} {map : List MnidHnp} {pfx : In6Addr} {nai : Nai}
      (used : List Nat) (missing : d.cachedType info.mnNai conf.ourAddress = .noEntry)
      (starts : StartsRegistration conf info)
      (answer : HnpCache.mnidHnpMap d.hnp env.radius (eui64ToEui48 info.mnIid) info.mnNai =
        (map, some (pfx, nai))) :
      MagMove conf d (.event info env)
        (((d.touch used).registering conf env info map pfx nai).pmipCacheAdd conf env d.top)
  | worked {input : MagInput} {bce : Nat} {d' : Daemon} (known : d.Known bce)
      (work : Worked bce d d') : MagMove conf d input d'
  | attached {info : MsgInfo} {env : Env} {bce : Nat} {start d' : Daemon}
      (event : info.msgEvent = .hasPBA)
      (found : d.cached info.mnNai conf.ourAddress = some bce)
      (wasTemp : (d.heap bce).type = .temp) (work : Worked bce d start)
      (ended : start.magEndRegistration conf env bce info.iif = .ok d') :
      MagMove conf d (.event info env) d'
  | detached {input : MagInput} {bce : Nat} {start mid : Daemon} (known : d.Known bce)
      (asked : d.deregisters conf input = some bce) (work : Worked bce d start)
      (dereg : start.magDereg conf input.env bce true = .ok mid) :
      MagMove conf d input (mid.pmipBceDelete bce)
  | dropped {input : MagInput} {bce : Nat} {start : Daemon} (known : d.Known bce)
      (spent : d.exhausts input = some bce) (work : Worked bce d start) :
      MagMove conf d input (start.pmipBceDelete bce)
  | tunnelExpired {input : MagInput} {mag : Fin pmipMaxMags}
      (queued : .tunnel mag ∈ d.tun.tq.list) :
      MagMove conf d input { d with
        tun := { d.tun with tq := d.tun.tq.delTask (.tunnel mag) }.pmipTimerTunnelExpiredHandler
          mag }

namespace Daemon

def Looked (d looked : Daemon) : Prop :=
  looked = d ∨ ∃ k, looked = d.touch (d.walk k (d.chainOf k))

theorem looked_walk (d : Daemon) (k : PmipKey) : Looked d (d.touch (d.walk k (d.chainOf k))) :=
  Or.inr ⟨k, rfl⟩

theorem Looked.touched {d looked : Daemon} (looks : Looked d looked) :
    ∃ used, looked = d.touch used := by
  rcases looks with rfl | ⟨k, rfl⟩
  · exact ⟨[], rfl⟩
  · exact ⟨_, rfl⟩

theorem worked_found {d looked d' : Daemon} (looks : Looked d looked) {mnNai : Nai}
    {magAddr : In6Addr} {bce : Nat} (got : looked.getEntry mnNai magAddr = .ok (d', bce)) :
    Worked bce d d' ∧ d.cached mnNai magAddr = some bce ∧ d.Known bce ∧ d'.heap = d.heap := by
  obtain ⟨found, rfl⟩ := getEntry_ok got
  rcases looks with rfl | ⟨k, rfl⟩
  · exact ⟨worked_lookup _ bce _, found, Or.inl (cached_some found).1, rfl⟩
  · exact ⟨(worked_lookup d bce k).trans (worked_lookup _ bce _), found,
      Or.inl (cached_some found).1, rfl⟩

section Moves
variable {conf : Conf} {d d' : Daemon} {env : Env} {info : MsgInfo}

theorem magRegister_move {used : List Nat}
    (missing : d.cachedType info.mnNai conf.ourAddress = .noEntry)
    (starts : StartsRegistration conf info)
    (taken : (d.touch used).magRegister conf env info = .ok d') :
    MagMove conf d (.event info env) d' := by
  simp only [magRegister] at taken
  rw [pmipCacheAlloc_eq] at taken
  cases answer : HnpCache.mnidHnpMap d.hnp env.radius (eui64ToEui48 info.mnIid) info.mnNai with
  | mk map result =>
      cases isAllocated : env.entryAlloc with
      | false =>
          have asked : (d.touch used).hnp = d.hnp := rfl
          simp only [isAllocated, Bool.false_eq_true, if_false, asked, answer] at taken
          cases result with
          | none =>
              cases taken
              have same : map = d.hnp := HnpCache.map_of_none answer
              subst same
              exact MagMove.looked used
          | some found => cases taken
      | true =>
          have asked : ((d.touch used).allocated .temp).hnp = d.hnp := rfl
          simp only [isAllocated, if_true, asked, answer] at taken
          cases result with
          | none =>
              cases taken
              have same : map = d.hnp := HnpCache.map_of_none answer
              subst same
              exact MagMove.leaked used
          | some found =>
              obtain ⟨pfx, nai⟩ := found
              cases taken
              exact MagMove.registered used missing starts answer

theorem magNoEntry_move {used : List Nat}
    (missing : d.cachedType info.mnNai conf.ourAddress = .noEntry)
    (taken : (d.touch used).magNoEntry conf env info = .ok d') :
    MagMove conf d (.event info env) d' := by
  simp only [magNoEntry] at taken
  split at taken
  · rename_i ingress
    split at taken
    · rename_i event
      exact magRegister_move missing ⟨ingress, Or.inl event⟩ taken
    · rename_i event
      exact magRegister_move missing ⟨ingress, Or.inr (Or.inl event)⟩ taken
    · rename_i event
      exact magRegister_move missing ⟨ingress, Or.inr (Or.inr event)⟩ taken
    · cases taken
      exact MagMove.looked used
  · cases taken
    exact MagMove.looked used

theorem magTemp_move {looked : Daemon} (looks : Looked d looked)
    (isTemp : d.cachedType info.mnNai conf.ourAddress = .temp)
    (taken : looked.magTemp conf env info = .ok d') :
    MagMove conf d (.event info env) d' := by
  simp only [magTemp] at taken
  split at taken
  · rename_i event
    obtain ⟨⟨start, bce⟩, got, taken⟩ := bind_eq_ok.mp taken
    obtain ⟨work, found, known, _⟩ := worked_found looks got
    simp only at taken
    split at taken
    · exact MagMove.attached event found (cachedType_some isTemp found)
        ((work.trans (worked_delTask _ bce)).trans (worked_modify _ bce _ rfl rfl (Or.inl rfl))) taken
    · cases taken
      exact MagMove.worked known work
  · cases taken
    obtain ⟨used, rfl⟩ := looks.touched
    exact MagMove.looked used

theorem magPmip_move {looked : Daemon} (looks : Looked d looked)
    (isPmip : d.cachedType info.mnNai conf.ourAddress = .pmip)
    (taken : looked.magPmip conf env info = .ok d') :
    MagMove conf d (.event info env) d' := by
  simp only [magPmip] at taken
  split at taken
  · -- a router solicitation
    obtain ⟨⟨start, bce⟩, got, taken⟩ := bind_eq_ok.mp taken
    obtain ⟨work, _, known, _⟩ := worked_found looks got
    cases taken
    exact MagMove.worked known (work.trans (worked_magKickoffRa _ bce))
  · -- an acknowledgement
    obtain ⟨⟨start, bce⟩, got, taken⟩ := bind_eq_ok.mp taken
    obtain ⟨work, found, known, _⟩ := worked_found looks got
    simp only at taken
    split at taken
    · cases taken
      have refreshed := (work.trans (worked_delTask _ bce)).trans
        (worked_modify _ bce (fun e =>
          { e with
            pbaFlags := info.pbaFlags
            lifetime := ⟨shortenLifetime info.lifetime.tvSec, 0⟩ }) rfl rfl (Or.inl rfl))
      have still := refreshed.frame.type.trans (cachedType_some isPmip found)
      exact MagMove.worked known ((refreshed.trans (worked_registered conf env still)).trans
        (worked_magKickoffRa _ bce))
    · cases taken
      exact MagMove.worked known work
  · -- an association seen again
    obtain ⟨⟨start, bce⟩, got, taken⟩ := bind_eq_ok.mp taken
    obtain ⟨work, _, known, _⟩ := worked_found looks got
    cases taken
    exact MagMove.worked known ((work.trans (worked_magKickoffRa _ bce)).trans
      (worked_magForceUpdateRegistration conf _ env bce))
  · obtain ⟨⟨start, bce⟩, got, taken⟩ := bind_eq_ok.mp taken
    obtain ⟨work, _, known, _⟩ := worked_found looks got
    cases taken
    exact MagMove.worked known ((work.trans (worked_magKickoffRa _ bce)).trans
      (worked_magForceUpdateRegistration conf _ env bce))
  · -- a deassociation
    rename_i event
    obtain ⟨⟨start, bce⟩, got, taken⟩ := bind_eq_ok.mp taken
    obtain ⟨work, found, known, _⟩ := worked_found looks got
    obtain ⟨mid, dereg, taken⟩ := bind_eq_ok.mp taken
    cases taken
    have asked : d.deregisters conf (.event info env) = some bce := by
      simp only [deregisters, event, isPmip, and_self, if_true, found]
    exact MagMove.detached known asked work dereg
  · -- a neighbour advertisement
    obtain ⟨⟨start, bce⟩, got, taken⟩ := bind_eq_ok.mp taken
    obtain ⟨work, _, known, _⟩ := worked_found looks got
    cases taken
    exact MagMove.worked known (((work.trans (worked_modify _ bce _ rfl rfl (Or.inl rfl))).trans
      (worked_delTask _ bce)).trans (worked_magForceUpdateRegistration conf _ env bce))
  · cases taken
    obtain ⟨used, rfl⟩ := looks.touched
    exact MagMove.looked used

theorem magFsm_move (taken : d.magFsm conf env info = .ok d') :
    MagMove conf d (.event info env) d' := by
  simp only [magFsm] at taken
  split at taken
  · cases taken
    exact MagMove.looked []
  · rw [pmipCacheExists_eq] at taken
    cases isType : d.cachedType info.mnNai conf.ourAddress with
    | noEntry =>
        rw [isType] at taken
        exact magNoEntry_move isType taken
    | temp =>
        rw [isType] at taken
        exact magTemp_move (looked_walk d _) isType taken
    | pmip =>
        rw [isType] at taken
        exact magPmip_move (looked_walk d _) isType taken

theorem retransPbu_move {bce : Nat} (queued : .bce bce ∈ d.tun.tq.list) {input : MagInput}
    (spent : (d.heap bce).nRetsCounter = 0 → d.exhausts input = some bce)
    (taken : (d.popped (.bce bce)).pmipTimerRetransPbuHandler conf env bce = .ok d') :
    MagMove conf d input d' := by
  rcases retransPbu_cases taken with ⟨silent, rfl⟩ | ⟨pbu, kept, _, rfl⟩
  · exact MagMove.dropped (Or.inr queued) (spent silent) (worked_popped d bce)
  · exact MagMove.worked (Or.inr queued)
      ((worked_popped d bce).trans (worked_retransmitted conf env kept))

theorem bceExpired_move (isMag : conf.mip6Entity = .mag) {bce : Nat}
    (queued : .bce bce ∈ d.tun.tq.list) (task : d.tun.tq.task (.bce bce) = some .bceExpired)
    (asked : (d.heap bce).nRetsCounter = 0 → d.deregisters conf (.fire env) = some bce)
    (taken : (d.popped (.bce bce)).pmipTimerBceExpiredHandler conf env bce = .ok d') :
    MagMove conf d (.fire env) d' := by
  have work := worked_popped d bce
  simp only [pmipTimerBceExpiredHandler] at taken
  rw [isMag] at taken
  dsimp only at taken
  split at taken
  · rename_i silent
    obtain ⟨mid, dereg, taken⟩ := bind_eq_ok.mp taken
    cases taken
    exact MagMove.detached (Or.inr queued) (asked silent) work dereg
  · cases taken
    refine MagMove.worked (Or.inr queued) ((((work.trans (worked_getMnAddr _ bce)).trans
      (worked_emit _ bce (Effect.isMessage_sendNs _ _) rfl)).trans
      (worked_addTask _ bce _ _ fun _ => Or.inl task)).trans
      (worked_modify _ bce _ rfl rfl (Or.inl rfl)))

theorem fire_move (isMag : conf.mip6Entity = .mag) (taken : d.fire conf env = .ok d') :
    MagMove conf d (.fire env) d' := by
  simp only [fire] at taken
  cases popped : d.tun.tq.runner env.now with
  | none =>
      rw [popped] at taken
      cases taken
      exact MagMove.looked []
  | some pair =>
      obtain ⟨element, tq⟩ := pair
      obtain ⟨queued, rfl⟩ := TQueue.runner_some popped
      simp only [popped] at taken
      cases element with
      | tunnel mag =>
          cases taken
          exact MagMove.tunnelExpired queued
      | bce bce =>
          simp only at taken
          split at taken
          · rename_i task
            apply retransPbu_move queued ?_ taken
            intro silent
            simp only [exhausts, popped, task, true_and]
            exact if_pos silent
          · rename_i task
            apply bceExpired_move isMag queued task ?_ taken
            intro silent
            simp only [deregisters, popped, task, true_and]
            exact if_pos silent
          · cases taken
            exact MagMove.worked (Or.inr queued) (worked_popped d bce)

theorem magStep_move (isMag : conf.mip6Entity = .mag) {input : MagInput}
    (taken : d.magStep conf input = .ok d') : MagMove conf d input d' := by
  cases input with
  | event info env => exact magFsm_move taken
  | fire env => exact fire_move isMag taken

end Moves

section Registering
variable (conf : Conf) (d : Daemon) (env : Env) (info : MsgInfo) (map : List MnidHnp)
  (pfx : In6Addr) (nai : Nai)

theorem frame_registering :
    Frame (fun _ => ()) d.top { d.allocated .temp with hnp := map }
      (d.registering conf env info map pfx nai) :=
  (frame_modify _ _ d.top _ rfl).trans (frame_magPmipMd conf _ env d.top _)

theorem steady_registering : Steady d (d.registering conf env info map pfx nai) := by
  have allocated : Steady d { d.allocated .temp with hnp := map } :=
    ⟨rfl, rfl, fun _ => Iff.rfl, rfl⟩
  exact (((allocated.trans (steady_modify _ d.top _)).trans (steady_modify _ d.top _)).trans
    (steady_mhSendPbu _ env d.top _ _ _)).trans (steady_addTask _ d.top _ _ _)

theorem registering_entry :
    ((d.registering conf env info map pfx nai).heap d.top).binding =
      { (PmipEntry.blank .temp).binding with
        mnNai := nai
        mnPrefix := pfx
        ourAddr := conf.ourAddress
        mnSuffix := info.mnIid
        mnHwAddress := eui64ToEui48 info.mnIid
        mnServMagAddr := conf.ourAddress
        mnServLmaAddr := conf.lmaAddress
        mnLinkLocalAddr := linkLocalAddr info.mnIid
        pbuFlags := pbuFlagsAckPr
        link := info.iif } := by
  simp only [registering, magPmipMd]
  rw [(frame_magStartRegistration conf _ env d.top).entry]
  simp [modify, allocated, PmipEntry.binding, PmipEntry.blank]

theorem registering_type : ((d.registering conf env info map pfx nai).heap d.top).type = .temp :=
  congrArg PmipEntry.type (registering_entry conf d env info map pfx nai)

theorem registering_key :
    (d.registering conf env info map pfx nai).key d.top = ⟨nai, conf.ourAddress⟩ := by
  have entry := registering_entry conf d env info map pfx nai
  have isNai := congrArg PmipEntry.mnNai entry
  have isMag := congrArg PmipEntry.mnServMagAddr entry
  simp only [PmipEntry.binding] at isNai isMag
  simp only [key, PmipEntry.key, isNai, isMag]

theorem registering_new {d : Daemon} (ok : HashOk d) {nai : Nai}
    (free : d.cached nai conf.ourAddress = none) :
    (d.registering conf env info map pfx nai).key d.top ∉
      (d.registering conf env info map pfx nai).entries.map
        (d.registering conf env info map pfx nai).key := by
  have frame := frame_registering conf d env info map pfx nai
  have sameEntries : (d.registering conf env info map pfx nai).entries = d.entries := frame.entries
  have keys : ∀ p ∈ d.entries, (d.registering conf env info map pfx nai).key p = d.key p := by
    intro p member
    have different : p ≠ d.top := fun same => ok.top_notMem (same ▸ member)
    simp only [key, frame.others p different, allocated, Function.update_of_ne different]
  rw [registering_key, sameEntries, List.map_congr_left keys]
  intro present
  obtain ⟨p, member, same⟩ := List.mem_map.mp present
  exact ok.cached_none free p member same

theorem HashOk.registering {d : Daemon} (ok : HashOk d) {nai : Nai}
    (free : env.nodeAlloc = true → d.cached nai conf.ourAddress = none) :
    HashOk ((d.registering conf env info map pfx nai).pmipCacheAdd conf env d.top) := by
  have blank : HashOk { d.allocated .temp with hnp := map } := { ok.allocated .temp with }
  have isLive : (d.allocated .temp).live d.top = true := by simp [Daemon.allocated]
  have frame := frame_registering conf d env info map pfx nai
  have ready : HashOk (d.registering conf env info map pfx nai) :=
    blank.frame isLive (fun member => absurd member ok.top_notMem) frame
  exact ready.added (frame.live ▸ isLive)
    (fun memory => registering_new conf env info map pfx ok (free memory))
    (pmipCacheAdd_added conf _ env d.top)

theorem registered_entry :
    (((d.registering conf env info map pfx nai).pmipCacheAdd conf env d.top).heap d.top).binding =
      ((d.registering conf env info map pfx nai).heap d.top).binding := by
  have added := pmipCacheAdd_added conf (d.registering conf env info map pfx nai) env d.top
  have same := congrArg PmipEntry.binding added.entry
  exact same

theorem registered_type :
    (((d.registering conf env info map pfx nai).pmipCacheAdd conf env d.top).heap d.top).type =
      .temp :=
  (congrArg PmipEntry.type (registered_entry conf d env info map pfx nai)).trans
    (registering_type conf d env info map pfx nai)

theorem registered_heap {p : Nat} (different : p ≠ d.top) :
    ((d.registering conf env info map pfx nai).pmipCacheAdd conf env d.top).heap p = d.heap p := by
  have frame := frame_registering conf d env info map pfx nai
  have added := pmipCacheAdd_added conf (d.registering conf env info map pfx nai) env d.top
  rw [added.others p different, frame.others p different]
  simp only [allocated, Function.update_of_ne different]

theorem registered_mem {p : Nat}
    (member : p ∈ ((d.registering conf env info map pfx nai).pmipCacheAdd conf env d.top).entries) :
    p = d.top ∨ p ∈ d.entries := by
  have frame := frame_registering conf d env info map pfx nai
  have sameEntries : (d.registering conf env info map pfx nai).entries = d.entries := frame.entries
  exact sameEntries ▸ (pmipCacheAdd_added conf _ env d.top).mem_entries p member

theorem registered_perm {d : Daemon} (ok : HashOk d) {nai : Nai}
    (free : d.cached nai conf.ourAddress = none) (memory : env.nodeAlloc = true) :
    ((d.registering conf env info map pfx nai).pmipCacheAdd conf env d.top).entries.Perm
      (d.top :: d.entries) := by
  have frame := frame_registering conf d env info map pfx nai
  have joined := ((pmipCacheAdd_added conf (d.registering conf env info map pfx nai) env
    d.top).entries_perm (registering_new conf env info map pfx ok free) memory).1
  rw [frame.entries] at joined
  exact joined

end Registering

theorem magEndRegistration_type {conf : Conf} {d d' : Daemon} {env : Env} {bce : Nat} {iif : Int}
    (ended : d.magEndRegistration conf env bce iif = .ok d') : (d'.heap bce).type = .pmip := by
  simp only [magEndRegistration] at ended
  obtain ⟨opened, added, done⟩ := bind_eq_ok.mp ended
  have begun : ((d.registered conf env bce).heap bce).type = .pmip := by
    simp [registered, pmipCacheStart, addTask, modify]
  have opens := (frame_tunnelAdd (fun e => e.type) _ bce (fun _ _ => rfl) conf env _ _).of_ok added
  have last : Frame PmipEntry.binding bce opened d' := by
    cases done
    exact (((frame_magUplinkAdd opened bce).trans (frame_magKickoffRa _ bce)).trans
      (frame_getMnAddr _ bce)).trans (frame_magSetupRoute conf _ bce _ _)
  exact last.type.trans (opens.entry.trans begun)

end Daemon

end OaiPmip
