import OaiPmip.Fsm
import OaiPmip.Lib.Runs

/-!
# What the procedures leave alone

`Frame view bce d d'` says that going from `d` to `d'` only the entry `bce` and
its timer were worked on: the cache holds the same nodes, no entry was
allocated or released, every other entry is as it was, no other entry's timer
was set, calls were only added to the log, and what `view` shows of `bce` is
unchanged.  As long as `bce` and the
entries of the cache are live, no released entry is used.
-/

set_option autoImplicit false

namespace OaiPmip

open OaiPmip.Runs

def PmipEntry.content (e : PmipEntry) : PmipEntry :=
  { e with bid := 0, addTime := ⟨0, 0⟩, seqnoOut := 0, status := 0, nRetsCounter := 0 }

def PmipEntry.unaddressed (e : PmipEntry) : PmipEntry :=
  { e with mnPrefix := in6addrAny, mnAddr := in6addrAny }

/-- The fields that say which binding an entry is, where it leads and how far
it has got.  Counters, times, sequence numbers and messages are left out. -/
def PmipEntry.binding (e : PmipEntry) : PmipEntry :=
  { e with
    bid := 0
    mnAddr := in6addrAny
    addTime := ⟨0, 0⟩
    lifetime := ⟨0, 0⟩
    seqnoIn := 0
    seqnoOut := 0
    pbaFlags := 0
    mhVec := none
    status := 0
    timestamp := ⟨0, 0⟩
    nRetsCounter := 0 }

/-- The content without the tunnel it goes through and the address that is
computed from it. -/
def PmipEntry.untunnelled (e : PmipEntry) : PmipEntry :=
  { e.content with mnAddr := in6addrAny, tunnel := 0 }

def PmipEntry.owner (e : PmipEntry) : PmipEntry :=
  { e.binding with type := .noEntry, tunnel := 0 }

namespace Tunnels

variable {conf : Conf} {t t' : Tunnels}

theorem pmipTunnelAdd_slot {env : TunnelEnv} {l r : In6Addr} {link i : Int}
    (added : t.pmipTunnelAdd conf env l r link = .ok (t', i)) (bce : Nat) :
    t'.tq.slot (.bce bce) = t.tq.slot (.bce bce) := by
  have record : ∀ mag, (t.recordTunnel env mag l r link).1.tq = t.tq := fun _ => rfl
  simp only [pmipTunnelAdd] at added
  split at added
  · split at added
    · cases added
    · rename_i mag _
      split at added
      · split at added
        · rw [← record mag]
          cases added
          rfl
        · cases added
          exact TQueue.slot_delTask_of_ne _ (by simp)
      · split at added
        · cases added
          rfl
        · split at added
          · rw [← record mag]
            cases added
            rfl
          · cases added
            rfl
  · cases added
    rfl

theorem armTimer_slot (mag : Fin pmipMaxMags) (expires : Timespec) (bce : Nat) :
    (t.armTimer mag expires).tq.slot (.bce bce) = t.tq.slot (.bce bce) :=
  TQueue.slot_addTaskAbs_of_ne _ _ _ (by simp)

theorem pmipTunnelSetTimer_slot {now timeOut : Timespec} {r : In6Addr}
    (set_ : t.pmipTunnelSetTimer now r timeOut = .ok t') (bce : Nat) :
    t'.tq.slot (.bce bce) = t.tq.slot (.bce bce) := by
  unfold pmipTunnelSetTimer at set_
  simp only at set_
  split at set_
  · cases set_
  · split at set_
    · cases set_
      exact armTimer_slot _ _ _
    · split at set_
      · cases set_
        rw [armTimer_slot]
        exact TQueue.slot_delTask_of_ne _ (by simp)
      · cases set_
        rfl

theorem pmipTunnelDel_slot {now : Timespec} {tunnel i : Int}
    (deleted : t.pmipTunnelDel conf now tunnel = .ok (t', i)) (bce : Nat) :
    t'.tq.slot (.bce bce) = t.tq.slot (.bce bce) := by
  simp only [pmipTunnelDel] at deleted
  split at deleted
  · split at deleted
    · split at deleted
      · split at deleted
        · split at deleted
          · cases deleted
          · split at deleted
            · cases deleted
            · rename_i set_
              cases deleted
              exact pmipTunnelSetTimer_slot set_ bce
        · cases deleted
          rfl
      · cases deleted
        rfl
    · cases deleted
      rfl
  · cases deleted
    rfl

end Tunnels

structure Frame {α : Type} (view : PmipEntry → α) (bce : Nat) (d d' : Daemon) : Prop where
  hash : d'.hash = d.hash
  live : d'.live = d.live
  top : d'.top = d.top
  count : d'.count = d.count
  hnp : d'.hnp = d.hnp
  others : ∀ q, q ≠ bce → d'.heap q = d.heap q
  entry : view (d'.heap bce) = view (d.heap bce)
  slots : ∀ q, q ≠ bce → d'.tun.tq.slot (.bce q) = d.tun.tq.slot (.bce q)
  logged : d.log <:+ d'.log
  freed : d.live bce = true → (∀ q ∈ d.entries, d.live q = true) → d'.freedUses = d.freedUses

namespace Frame

variable {α β : Type} {view : PmipEntry → α} {bce : Nat} {d d' d'' : Daemon}

theorem refl (view : PmipEntry → α) (bce : Nat) (d : Daemon) : Frame view bce d d where
  hash := rfl
  live := rfl
  top := rfl
  count := rfl
  hnp := rfl
  others := fun _ _ => rfl
  entry := rfl
  slots := fun _ _ => rfl
  logged := List.suffix_refl _
  freed := fun _ _ => rfl

theorem trans (first : Frame view bce d d') (second : Frame view bce d' d'') :
    Frame view bce d d'' where
  hash := second.hash.trans first.hash
  live := second.live.trans first.live
  top := second.top.trans first.top
  count := second.count.trans first.count
  hnp := second.hnp.trans first.hnp
  others := fun q other => (second.others q other).trans (first.others q other)
  entry := second.entry.trans first.entry
  slots := fun q other => (second.slots q other).trans (first.slots q other)
  logged := first.logged.trans second.logged
  freed := by
    intro isLive allLive
    have entries : d'.entries = d.entries := by simp only [Daemon.entries, first.hash]
    rw [second.freed (first.live ▸ isLive) (by rw [entries, first.live]; exact allLive),
      first.freed isLive allLive]

theorem queued (frame : Frame view bce d d') (q : Nat) (queued : .bce q ∈ d'.tun.tq.list) :
    q = bce ∨ .bce q ∈ d.tun.tq.list := by
  by_cases here : q = bce
  · exact Or.inl here
  · rw [TQueue.mem_iff_slot, frame.slots q here, ← TQueue.mem_iff_slot] at queued
    exact Or.inr queued

theorem bind {x : Outcome} {f : Daemon → Outcome} (before : Frame view bce d (reached x))
    (after : ∀ next, x = .ok next → Frame view bce next (reached (f next))) :
    Frame view bce d (reached (x >>= f)) :=
  reached_bind (fun first second => first.trans second) before after

theorem of_ok {x : Outcome} (frame : Frame view bce d (reached x)) (ok : x = .ok d') :
    Frame view bce d d' := by
  rw [ok] at frame
  exact frame

theorem weaken {less : PmipEntry → β} (coarser : ∀ e e', view e' = view e → less e' = less e)
    (frame : Frame view bce d d') : Frame less bce d d' :=
  { frame with entry := coarser _ _ frame.entry }

theorem forget (frame : Frame view bce d d') : Frame (fun _ => ()) bce d d' :=
  frame.weaken fun _ _ _ => rfl

theorem type (frame : Frame PmipEntry.binding bce d d') :
    (d'.heap bce).type = (d.heap bce).type := by
  have shown := congrArg PmipEntry.type frame.entry
  exact shown

theorem tunnel (frame : Frame PmipEntry.binding bce d d') :
    (d'.heap bce).tunnel = (d.heap bce).tunnel := by
  have shown := congrArg PmipEntry.tunnel frame.entry
  exact shown

theorem binding (frame : Frame PmipEntry.content bce d d') : Frame PmipEntry.binding bce d d' :=
  frame.weaken fun e e' same => by
    change e'.content.binding = e.content.binding
    rw [same]

theorem kind (frame : Frame PmipEntry.binding bce d d') : Frame (fun e => e.type) bce d d' :=
  frame.weaken fun e e' same => by
    have shown := congrArg PmipEntry.type same
    exact shown

theorem untunnelled (frame : Frame PmipEntry.content bce d d') :
    Frame PmipEntry.untunnelled bce d d' :=
  frame.weaken fun _ _ same => by simp only [PmipEntry.untunnelled, same]

theorem typed (frame : Frame PmipEntry.untunnelled bce d d') :
    Frame (fun e => e.type) bce d d' :=
  frame.weaken fun e e' same => by
    have shown := congrArg PmipEntry.type same
    exact shown

theorem whose (frame : Frame PmipEntry.untunnelled bce d d') : Frame PmipEntry.owner bce d d' :=
  frame.weaken fun e e' same => by
    change e'.untunnelled.owner = e.untunnelled.owner
    rw [same]

theorem owner (frame : Frame PmipEntry.binding bce d d') : Frame PmipEntry.owner bce d d' :=
  frame.weaken fun _ _ same => by simp only [PmipEntry.owner, same]

theorem key (frame : Frame PmipEntry.owner bce d d') : d'.key = d.key := by
  funext q
  by_cases here : q = bce
  · subst here
    have nai := congrArg PmipEntry.mnNai frame.entry
    have mag := congrArg PmipEntry.mnServMagAddr frame.entry
    simp only [PmipEntry.owner, PmipEntry.binding] at nai mag
    simp only [Daemon.key, PmipEntry.key, nai, mag]
  · simp only [Daemon.key, frame.others q here]

end Frame

namespace Daemon

section Primitives
variable {α : Type} (view : PmipEntry → α) (d : Daemon) (bce : Nat)

theorem touch_of_live {d : Daemon} {used : List Nat} (isLive : ∀ q ∈ used, d.live q = true) :
    d.touch used = d := by
  have none_ : used.filter (fun q => !d.live q) = [] := by
    apply List.filter_eq_nil_iff.mpr
    intro q member
    simp [isLive q member]
  simp [touch, none_]

theorem frame_touch : Frame view bce d (d.touch [bce]) :=
  { Frame.refl view bce d with
    freed := fun isLive _ => by rw [touch_of_live (by simpa using isLive)] }

theorem frame_modify (write : PmipEntry → PmipEntry)
    (kept : view (write (d.heap bce)) = view (d.heap bce)) : Frame view bce d (d.modify bce write) :=
  { frame_touch view d bce with
    others := fun q other => by simp [modify, Function.update_of_ne other]
    entry := by simpa [modify] using kept }

theorem frame_emit (effect : Effect) : Frame view bce d (d.emit effect) :=
  { Frame.refl view bce d with logged := List.suffix_cons _ _ }

theorem frame_delTask : Frame view bce d (d.delTask bce) :=
  { frame_touch view d bce with
    slots := fun q other => TQueue.slot_delTask_of_ne _ (by simpa using other) }

theorem frame_addTask (kept : ∀ e now, view { e with addTime := now } = view e)
    (now timeOut : Timespec) (task : Task) : Frame view bce d (d.addTask now timeOut bce task) :=
  { frame_modify view d bce (fun e => { e with addTime := now }) (kept (d.heap bce) now) with
    slots := fun q other => TQueue.slot_addTaskAbs_of_ne _ _ _ (by simpa using other) }

theorem frame_tunnelAdd (kept : ∀ e tunnel, view { e with tunnel := tunnel } = view e)
    (conf : Conf) (env : Env) (remote : In6Addr) (link : Int) :
    Frame view bce d (reached (d.pmipTunnelAdd conf env bce remote link)) := by
  simp only [pmipTunnelAdd]
  split
  · exact Frame.refl view bce d
  · rename_i tun tunnel added
    have before : Frame view bce d ({ d with tun := tun }.emit (.tunnelAdd remote tunnel)) :=
      { Frame.refl view bce d with
        slots := fun q _ => Tunnels.pmipTunnelAdd_slot added q
        logged := List.suffix_cons _ _ }
    rw [reached_ok]
    exact before.trans (frame_modify view _ bce _ (kept _ _))

theorem frame_tunnelDel (conf : Conf) (env : Env) :
    Frame view bce d (reached (d.pmipTunnelDel conf env bce)) := by
  unfold pmipTunnelDel
  simp only
  split
  · exact Frame.refl view bce d
  · rename_i deleted
    exact { Frame.refl view bce d with
      slots := fun q _ => Tunnels.pmipTunnelDel_slot deleted q
      logged := List.suffix_cons _ _ }

theorem frame_cacheStart (env : Env) :
    Frame PmipEntry.content bce d (d.pmipCacheStart env bce) :=
  frame_addTask _ d bce (fun _ _ => rfl) _ _ _

theorem frame_getMnAddr : Frame PmipEntry.binding bce d (d.getMnAddr bce) :=
  frame_modify _ d bce _ rfl

theorem frame_mhSendPbu (env : Env) (src dst : In6Addr) (lifetime : Timespec) :
    Frame PmipEntry.binding bce d (d.mhSendPbu env src dst bce lifetime) := by
  simp only [mhSendPbu]
  split
  · have counted : Frame PmipEntry.binding bce d { d with sequence := d.sequence + 1 } :=
      { Frame.refl _ bce d with }
    exact ((counted.trans (frame_modify _ _ bce _ rfl)).trans (frame_emit _ _ bce _)).trans
      (frame_modify _ _ bce _ rfl)
  · exact Frame.refl _ bce d

theorem frame_mhSendPba (env : Env) (src dst : In6Addr) (lifetime : Timespec) :
    Frame PmipEntry.content bce d (d.mhSendPba env src dst bce lifetime) := by
  simp only [mhSendPba]
  split
  · exact (frame_modify _ d bce _ rfl).trans (frame_emit _ _ bce _)
  · exact Frame.refl _ bce d

end Primitives

/-- The update that `mh_send_pbu` makes of an entry. -/
def pbuOf (d : Daemon) (env : Env) (bce : Nat) (lifetime : Timespec) : Pbu where
  seqno := UInt16.ofNat d.sequence
  flags := (d.heap bce).pbuFlags
  lifetime := encodeLifetime lifetime
  mnNai := (d.heap bce).mnNai
  mnPrefix := (d.heap bce).mnPrefix
  mnId := mnidOf (d.heap bce).mnSuffix
  timestamp := env.timeOfDay.map fun _ => timestampOf env.timeOfDay

theorem mhSendPbu_log (d : Daemon) {env : Env} (memory : env.mhAlloc = true) (src dst : In6Addr)
    (bce : Nat) (lifetime : Timespec) :
    (d.mhSendPbu env src dst bce lifetime).log =
      .sendPbu src dst (pbuOf d env bce lifetime) 0 :: d.log := by
  simp [mhSendPbu, memory, modify, emit, touch, pbuOf]

theorem mhSendPbu_entry (d : Daemon) {env : Env} (memory : env.mhAlloc = true) (src dst : In6Addr)
    (bce : Nat) (lifetime : Timespec) :
    (d.mhSendPbu env src dst bce lifetime).heap bce =
      { d.heap bce with
        seqnoOut := UInt16.ofNat d.sequence
        timestamp := timestampOf env.timeOfDay
        mhVec := some (pbuOf d env bce lifetime) } := by
  simp [mhSendPbu, memory, modify, emit, touch, pbuOf]

theorem pbuOf_timestamp (d : Daemon) (env : Env) (bce : Nat) (lifetime : Timespec) :
    (pbuOf d env bce lifetime).timestamp.getD ⟨0, 0⟩ = timestampOf env.timeOfDay := by
  cases known : env.timeOfDay with
  | none => simp [pbuOf, known, timestampOf]
  | some clock => simp [pbuOf, known]

/-- The acknowledgement that `mh_send_pba` makes of an entry. -/
def pbaOf (e : PmipEntry) (lifetime : Timespec) : Pba where
  status := e.status
  flags := e.pbaFlags
  seqno := e.seqnoIn
  lifetime := encodeLifetime lifetime
  mnNai := e.mnNai
  mnPrefix := e.mnPrefix
  mnId := mnidOf e.mnSuffix
  timestamp := e.timestamp

theorem mhSendPba_log (d : Daemon) {env : Env} (memory : env.mhAlloc = true) (src dst : In6Addr)
    (bce : Nat) (lifetime : Timespec) :
    (d.mhSendPba env src dst bce lifetime).log =
      .sendPba src dst (pbaOf (d.heap bce) lifetime) 0 :: d.log := by
  simp [mhSendPba, memory, modify, emit, touch, pbaOf]

/-! ## The gateway's procedures -/

section Mag
variable (conf : Conf) (d : Daemon) (env : Env) (bce : Nat)

theorem frame_magSetupRoute (pmip6Addr : In6Addr) (downlink : Int) :
    Frame PmipEntry.binding bce d (d.magSetupRoute conf pmip6Addr downlink) := by
  simp only [magSetupRoute]
  split
  · exact ((frame_emit _ d bce _).trans (frame_emit _ _ bce _)).trans (frame_emit _ _ bce _)
  · exact (frame_emit _ d bce _).trans (frame_emit _ _ bce _)

theorem frame_magRemoveRoute (pmip6Addr : In6Addr) (downlink : Int) :
    Frame PmipEntry.binding bce d (d.magRemoveRoute conf pmip6Addr downlink) := by
  simp only [magRemoveRoute]
  split
  · exact ((frame_emit _ d bce _).trans (frame_emit _ _ bce _)).trans (frame_emit _ _ bce _)
  · exact (frame_emit _ d bce _).trans (frame_emit _ _ bce _)

theorem frame_magKickoffRa : Frame PmipEntry.binding bce d (d.magKickoffRa bce) :=
  (frame_touch _ d bce).trans (frame_emit _ _ bce _)

theorem frame_startRetransmission :
    Frame PmipEntry.binding bce d (d.startRetransmission conf env bce) :=
  frame_addTask _ d bce (fun _ _ => rfl) _ _ _

theorem frame_magStartRegistration :
    Frame PmipEntry.binding bce d (d.magStartRegistration conf env bce) :=
  (frame_mhSendPbu d bce env _ _ _).trans (frame_startRetransmission conf _ env bce)

theorem frame_magForceUpdateRegistration :
    Frame PmipEntry.binding bce d (d.magForceUpdateRegistration conf env bce) := by
  simp only [magForceUpdateRegistration]
  have stopped : Frame PmipEntry.binding bce d
      (if (d.tun.tq.task (.bce bce)).isSome then d.delTask bce else d.touch [bce]) := by
    split
    · exact frame_delTask _ d bce
    · exact frame_touch _ d bce
  exact (stopped.trans (frame_mhSendPbu _ bce env _ _ _)).trans
    (frame_startRetransmission conf _ env bce)

theorem frame_registered : Frame PmipEntry.owner bce d (d.registered conf env bce) :=
  (frame_modify _ d bce _ rfl).trans (frame_cacheStart _ bce env).binding.owner

theorem frame_magUnroute : Frame PmipEntry.owner bce d (d.magUnroute conf bce) :=
  ((frame_modify _ d bce _ rfl).trans (frame_getMnAddr _ bce).owner).trans
    (frame_magRemoveRoute conf _ bce _ _).owner

theorem frame_magUplinkDel : Frame PmipEntry.binding bce d (d.magUplinkDel bce) := by
  unfold magUplinkDel
  dsimp only
  split
  · exact frame_emit _ d bce _
  · exact Frame.refl _ bce d

theorem frame_magUplinkAdd : Frame PmipEntry.binding bce d (d.magUplinkAdd bce) := by
  unfold magUplinkAdd
  dsimp only
  split
  · exact frame_emit _ d bce _
  · exact Frame.refl _ bce d

theorem frame_magEndRegistration (iif : Int) :
    Frame PmipEntry.owner bce d (reached (d.magEndRegistration conf env bce iif)) := by
  refine Frame.bind ((frame_registered conf d env bce).trans
    (frame_tunnelAdd _ _ bce (fun _ _ => rfl) conf env _ _)) fun next _ => ?_
  exact ((((frame_magUplinkAdd next bce).trans (frame_magKickoffRa _ bce)).trans
    (frame_getMnAddr _ bce)).trans (frame_magSetupRoute conf _ bce _ _)).owner

theorem frame_magDereg (propagate : Bool) :
    Frame PmipEntry.owner bce d (reached (d.magDereg conf env bce propagate)) := by
  refine Frame.bind (((frame_magUnroute conf d bce).trans (frame_magUplinkDel _ bce).owner).trans
    (frame_tunnelDel _ _ bce conf env)) fun next _ => ?_
  split
  · exact (frame_mhSendPbu next bce env _ _ _).owner
  · exact Frame.refl _ bce next

/-- Writing the new entry, which is not in the cache yet, and starting its
registration. -/
theorem frame_magPmipMd (info : MsgInfo) :
    Frame (fun _ => ()) bce d (d.magPmipMd conf env info bce) :=
  (frame_modify _ d bce _ rfl).trans (frame_magStartRegistration conf _ env bce).forget

end Mag

/-! ## The anchor's procedures -/

section Lma
variable (conf : Conf) (d : Daemon) (env : Env) (bce : Nat)

theorem frame_addClientRoute (nai : Nai) (mag : In6Addr) :
    Frame PmipEntry.content bce d (reached (d.addClientRoute env nai mag)) := by
  simp only [addClientRoute]
  split
  · exact { Frame.refl _ bce d with }
  · exact Frame.refl _ bce d

theorem frame_removeClientRoute (nai : Nai) (mag : In6Addr) :
    Frame PmipEntry.content bce d (reached (d.removeClientRoute nai mag)) := by
  simp only [removeClientRoute]
  split
  · exact { Frame.refl _ bce d with }
  · exact Frame.refl _ bce d

theorem frame_lmaSetupRoute (pmip6Addr : In6Addr) (tunnel : Int) :
    Frame PmipEntry.content bce d (d.lmaSetupRoute conf pmip6Addr tunnel) := by
  simp only [lmaSetupRoute]
  split
  · exact frame_emit _ d bce _
  · exact Frame.refl _ bce d

theorem frame_lmaRemoveRoute {α : Type} (view : PmipEntry → α) (pmip6Addr : In6Addr)
    (tunnel : Int) : Frame view bce d (d.lmaRemoveRoute conf pmip6Addr tunnel) := by
  simp only [lmaRemoveRoute]
  split
  · exact frame_emit _ d bce _
  · exact Frame.refl _ bce d

theorem frame_lmaRegNoNewTunnel :
    Frame PmipEntry.content bce d (d.lmaRegNoNewTunnel conf env bce) :=
  ((frame_modify _ d bce _ rfl).trans (frame_cacheStart _ bce env)).trans
    (frame_mhSendPba _ bce env _ _ _)

theorem frame_lmaForward : Frame PmipEntry.untunnelled bce d (d.lmaForward conf bce) :=
  (frame_modify _ d bce _ rfl).trans (frame_lmaSetupRoute conf _ bce _ _).untunnelled

theorem frame_lmaReg : Frame PmipEntry.untunnelled bce d (reached (d.lmaReg conf env bce)) := by
  refine Frame.bind ((frame_touch _ d bce).trans
    (frame_tunnelAdd _ _ bce (fun _ _ => rfl) conf env _ _)) fun next _ => ?_
  refine Frame.bind (((frame_lmaForward conf next bce).trans
    (frame_lmaRegNoNewTunnel conf _ env bce).untunnelled).trans
    (frame_addClientRoute _ env bce _ _).untunnelled) fun routed _ => ?_
  exact frame_emit _ routed bce _

theorem frame_lmaRelease {α : Type} (view : PmipEntry → α)
    (kept : ∀ e addr, view { e with mnAddr := addr } = view e) :
    Frame view bce d (reached (d.lmaRelease conf env bce)) := by
  have addressed : Frame view bce d (d.getMnAddr bce) := frame_modify view d bce _ (kept _ _)
  exact (addressed.trans (frame_lmaRemoveRoute conf _ bce view _ _)).trans
    (frame_tunnelDel _ _ bce conf env)

theorem frame_acknowledge (seqno : Option UInt16) :
    Frame PmipEntry.binding bce d (d.acknowledge conf env bce seqno) := by
  cases seqno with
  | none => exact Frame.refl _ bce d
  | some seqno =>
      exact (frame_modify _ d bce _ rfl).trans (frame_mhSendPba _ bce env _ _ _).binding

theorem frame_lmaDereg (seqno : Option UInt16) :
    Frame PmipEntry.owner bce d (reached (d.lmaDereg conf env bce seqno)) := by
  refine Frame.bind ((frame_delTask _ d bce).trans
    (frame_lmaRelease conf _ env bce _ fun _ _ => rfl)) fun released _ => ?_
  refine Frame.bind (frame_removeClientRoute _ bce _ _).binding.owner fun unrouted _ => ?_
  dsimp only [reached_pure]
  exact ((frame_emit _ unrouted bce _).trans (frame_acknowledge conf _ env bce seqno).owner).trans
    (frame_modify _ _ bce _ rfl)

theorem frame_lmaCheckPrefix (info : MsgInfo) :
    Frame PmipEntry.unaddressed bce d
      (reached (d.lmaCheckPrefix conf env bce info)) := by
  unfold lmaCheckPrefix
  split
  · exact Frame.refl _ bce d
  · rename_i pfx _
    have prefixed : Frame PmipEntry.unaddressed bce d
        (d.modify bce fun e => { e with mnPrefix := pfx }) := frame_modify _ d bce _ rfl
    split
    · simp only
      split
      · exact prefixed
      · split
        · exact prefixed.trans (frame_lmaRelease conf _ env bce _ fun _ _ => rfl)
        · exact prefixed
    · exact frame_lmaRelease conf d env bce _ fun _ _ => rfl

theorem frame_lmaUpdateBindingEntry (info : MsgInfo) :
    Frame (fun e => e.type) bce d (reached (d.lmaUpdateBindingEntry conf env bce info)) := by
  simp only [lmaUpdateBindingEntry]
  have checks : ∀ d : Daemon, Frame (fun e => e.type) bce d
      (reached (d.lmaCheckPrefix conf env bce info)) := by
    intro d
    apply (frame_lmaCheckPrefix conf d env bce info).weaken
    intro e e' same
    have shown := congrArg PmipEntry.type same
    exact shown
  refine Frame.bind ((frame_modify _ d bce _ rfl).trans (checks _)) fun checked _ => ?_
  dsimp only [reached_pure]
  exact ((frame_modify _ checked bce _ rfl).trans (frame_modify _ _ bce _ rfl)).trans
    (frame_modify _ _ bce _ rfl)

end Lma

end Daemon

end OaiPmip
