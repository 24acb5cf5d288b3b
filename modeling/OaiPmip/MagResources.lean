import OaiPmip.MagLiveness
import OaiPmip.MagUplink

/-!
# What the gateway installs for its nodes

`mag_end_registration` takes a reference to the tunnel and installs two rules
and a route for the address of the node; `mag_dereg` takes all of it back.  A
deassociation and an expiry go through `mag_dereg`.  When the retransmissions of
an update are used up the entry is deleted without it, which is right for a node
that is not registered yet, and leaks what was installed when the update was the
refresh of a registered one.
-/

set_option autoImplicit false

namespace OaiPmip

open OaiPmip.HashKeys OaiPmip.Runs

/-- What `mag_setup_route` installs: the rule for traffic to the address, the
rule that sends its traffic into the tunnel, and the route on the downlink. -/
inductive Fixture where
  | inward (addr : In6Addr)
  | outward (addr : In6Addr)
  | downlink (oif : Int) (addr : In6Addr)
  deriving DecidableEq

namespace Fixture

def add : Fixture → Effect
  | inward addr => .ruleAdd .mip6 (Daemon.ip6RulePrioPmip6Fwd - 1) in6addrAny 0 addr 128
  | outward addr => .ruleAdd .pmip Daemon.ip6RulePrioPmip6Fwd addr 128 in6addrAny 0
  | downlink oif addr => .routeAdd oif .mip6 addr 128

def del : Fixture → Effect
  | inward addr => .ruleDel .mip6 (Daemon.ip6RulePrioPmip6Fwd - 1) in6addrAny 0 addr 128
  | outward addr => .ruleDel .pmip Daemon.ip6RulePrioPmip6Fwd addr 128 in6addrAny 0
  | downlink oif addr => .routeDel oif .mip6 addr 128

def Wanted (conf : Conf) (addr : In6Addr) (link : Int) : Fixture → Prop
  | inward a => a = addr
  | outward a => conf.tunnelingEnabled = true ∧ a = addr
  | downlink oif a => oif = link ∧ a = addr

instance (conf : Conf) (addr : In6Addr) (link : Int) :
    (fixture : Fixture) → Decidable (fixture.Wanted conf addr link)
  | inward _ => inferInstanceAs (Decidable (_ = _))
  | outward _ => inferInstanceAs (Decidable (_ ∧ _))
  | downlink _ _ => inferInstanceAs (Decidable (_ ∧ _))

def standing (fixture : Fixture) : List Effect → Bool
  | [] => false
  | effect :: before =>
      if effect = fixture.add then true
      else if effect = fixture.del then false
      else standing fixture before

theorem Wanted.addr {conf : Conf} {first second : In6Addr} {link other : Int} {fixture : Fixture}
    (here : fixture.Wanted conf first link) (there : fixture.Wanted conf second other) :
    first = second := by
  cases fixture with
  | inward a => exact here.symm.trans there
  | outward a => exact here.2.symm.trans there.2
  | downlink oif a => exact here.2.symm.trans there.2

end Fixture

def references : List Effect → Int
  | [] => 0
  | .tunnelAdd _ _ :: before => references before + 1
  | .tunnelDel _ _ :: before => references before - 1
  | _ :: before => references before

def Effect.Inert (effect : Effect) : Prop :=
  ∀ fixture : Fixture, effect ≠ fixture.add ∧ effect ≠ fixture.del

theorem standing_inert {effect : Effect} (inert : effect.Inert) (fixture : Fixture)
    (log : List Effect) : fixture.standing (effect :: log) = fixture.standing log := by
  simp only [Fixture.standing, if_neg (inert fixture).1, if_neg (inert fixture).2]

theorem Effect.IsMessage.inert {effect : Effect} (message : effect.IsMessage) : effect.Inert := by
  intro fixture
  constructor
  · intro same
    subst same
    cases fixture <;> exact message
  · intro same
    subst same
    cases fixture <;> exact message

theorem Effect.inert_tunnelAdd (remote : In6Addr) (tunnel : Int) :
    (Effect.tunnelAdd remote tunnel).Inert := by
  intro fixture
  cases fixture <;> simp [Fixture.add, Fixture.del]

theorem Effect.inert_tunnelDel (mag : In6Addr) (tunnel : Int) :
    (Effect.tunnelDel mag tunnel).Inert := by
  intro fixture
  cases fixture <;> simp [Fixture.add, Fixture.del]

theorem Effect.inert_uplink (tunnel : Int) (addr : In6Addr) (len : Nat) :
    (Effect.routeAdd tunnel .pmip addr len).Inert ∧
      (Effect.routeDel tunnel .pmip addr len).Inert := by
  constructor <;> intro fixture <;> cases fixture <;> simp [Fixture.add, Fixture.del]

theorem references_message {effect : Effect} (message : effect.IsMessage) (log : List Effect) :
    references (effect :: log) = references log := by
  cases effect <;> first | rfl | exact message.elim

theorem spoke_keeps (log : List Effect) {sent : List Effect} (messages : ∀ effect ∈ sent, effect.IsMessage) :
    (∀ fixture : Fixture, fixture.standing (sent ++ log) = fixture.standing log) ∧
      references (sent ++ log) = references log := by
  induction sent with
  | nil => exact ⟨fun _ => rfl, rfl⟩
  | cons effect rest ih =>
      obtain ⟨standing, taken⟩ := ih fun other member => messages other (by simp [member])
      have message := messages effect (by simp)
      constructor
      · intro fixture
        rw [List.cons_append, standing_inert message.inert, standing fixture]
      · rw [List.cons_append, references_message message, taken]

namespace Daemon

section Routes
variable (conf : Conf) (d : Daemon) (addr : In6Addr) (link : Int)

theorem standing_magSetupRoute (fixture : Fixture) :
    fixture.standing (d.magSetupRoute conf addr link).log =
      (decide (fixture.Wanted conf addr link) || fixture.standing d.log) := by
  cases tunnelling : conf.tunnelingEnabled <;> cases fixture <;>
    simp [magSetupRoute, emit, Fixture.standing, Fixture.add, Fixture.del, Fixture.Wanted,
      tunnelling, eq_comm]

theorem standing_magRemoveRoute (fixture : Fixture) :
    fixture.standing (d.magRemoveRoute conf addr link).log =
      (!decide (fixture.Wanted conf addr link) && fixture.standing d.log) := by
  cases tunnelling : conf.tunnelingEnabled <;> cases fixture <;>
    simp [magRemoveRoute, emit, Fixture.standing, Fixture.add, Fixture.del, Fixture.Wanted,
      tunnelling, eq_comm]

theorem references_magSetupRoute :
    references (d.magSetupRoute conf addr link).log = references d.log := by
  simp only [magSetupRoute]
  split <;> rfl

theorem references_magRemoveRoute :
    references (d.magRemoveRoute conf addr link).log = references d.log := by
  simp only [magRemoveRoute]
  split <;> rfl

end Routes

theorem magSetupRoute_heap (conf : Conf) (d : Daemon) {addr : In6Addr} {link : Int} :
    (d.magSetupRoute conf addr link).heap = d.heap := by
  simp only [magSetupRoute]
  split <;> rfl

/-! ## Registering and deregistering a node -/

section Procedures
variable {conf : Conf} {d d' : Daemon} {env : Env} {bce : Nat}

theorem magEndRegistration_installs {iif : Int}
    (ended : d.magEndRegistration conf env bce iif = .ok d') :
    (d'.heap bce).mnAddr = convertId2Addr (d.heap bce).mnPrefix (d.heap bce).mnSuffix ∧
      (∀ fixture : Fixture, fixture.standing d'.log =
        (decide (fixture.Wanted conf (d'.heap bce).mnAddr (d'.heap bce).link) ||
          fixture.standing d.log)) ∧
      references d'.log = references d.log + 1 := by
  have owner := ((frame_magEndRegistration conf d env bce iif).of_ok ended).entry
  have pfx := congrArg PmipEntry.mnPrefix owner
  have suffix := congrArg PmipEntry.mnSuffix owner
  simp only [PmipEntry.owner, PmipEntry.binding] at pfx suffix
  simp only [magEndRegistration] at ended
  obtain ⟨opened, added, done⟩ := bind_eq_ok.mp ended
  have opens : ∃ tunnel, opened.log = .tunnelAdd conf.lmaAddress tunnel :: d.log := by
    simp only [pmipTunnelAdd] at added
    split at added
    · cases added
    · rename_i tunnel _
      cases added
      exact ⟨tunnel, rfl⟩
  obtain ⟨tunnel, isLog⟩ := opens
  have uplink : (∀ fixture : Fixture, fixture.standing (opened.magUplinkAdd bce).log =
      fixture.standing d.log) ∧ references (opened.magUplinkAdd bce).log = references d.log + 1 := by
    unfold magUplinkAdd
    dsimp only
    split
    · constructor
      · intro fixture
        dsimp only [emit]
        rw [standing_inert (Effect.inert_uplink _ _ _).1, isLog,
          standing_inert (Effect.inert_tunnelAdd _ _)]
      · dsimp only [emit, references]
        rw [isLog]
        rfl
    · rw [isLog]
      exact ⟨fun fixture => standing_inert (Effect.inert_tunnelAdd _ _) fixture d.log, rfl⟩
  cases done
  have advertised : ∀ (mid : Daemon), ((mid.magKickoffRa bce).getMnAddr bce).log =
      .sendRa (mid.heap bce).link (mid.heap bce).mnLinkLocalAddr (mid.heap bce).mnPrefix ::
        mid.log := fun _ => rfl
  have advert : ∀ (link : Int) (dst mnPrefix : In6Addr),
      (Effect.sendRa link dst mnPrefix).IsMessage := fun _ _ _ => trivial
  refine ⟨?_, fun fixture => ?_, ?_⟩
  · rw [← pfx, ← suffix, magSetupRoute_heap]
    simp [getMnAddr, modify]
  · rw [standing_magSetupRoute, magSetupRoute_heap, advertised, standing_inert (advert _ _ _).inert,
      uplink.1]
  · rw [references_magSetupRoute, advertised]
    exact uplink.2

theorem magDereg_removes {propagate : Bool} (dereg : d.magDereg conf env bce propagate = .ok d') :
    (∀ fixture : Fixture, fixture.standing d'.log =
      (!decide (fixture.Wanted conf (convertId2Addr (d.heap bce).mnPrefix (d.heap bce).mnSuffix)
          (d.heap bce).link) && fixture.standing d.log)) ∧
      references d'.log = references d.log - 1 := by
  simp only [magDereg] at dereg
  obtain ⟨closed, closes, done⟩ := bind_eq_ok.mp dereg
  have unrouted : ∀ fixture : Fixture, fixture.standing (d.magUnroute conf bce).log =
      (!decide (fixture.Wanted conf (convertId2Addr (d.heap bce).mnPrefix (d.heap bce).mnSuffix)
          (d.heap bce).link) && fixture.standing d.log) := by
    intro fixture
    unfold magUnroute
    dsimp only
    rw [standing_magRemoveRoute]
    simp [getMnAddr, modify, touch]
  have unreferenced : references (d.magUnroute conf bce).log = references d.log :=
    references_magRemoveRoute conf _ _ _
  have uplink : (∀ fixture : Fixture, fixture.standing ((d.magUnroute conf bce).magUplinkDel bce).log =
      fixture.standing (d.magUnroute conf bce).log) ∧
      references ((d.magUnroute conf bce).magUplinkDel bce).log =
        references (d.magUnroute conf bce).log := by
    unfold magUplinkDel
    dsimp only
    split
    · exact ⟨fun fixture => standing_inert (Effect.inert_uplink _ _ _).2 fixture _, rfl⟩
    · exact ⟨fun _ => rfl, rfl⟩
  have released : (∀ fixture : Fixture, fixture.standing closed.log =
      fixture.standing ((d.magUnroute conf bce).magUplinkDel bce).log) ∧
      references closed.log = references ((d.magUnroute conf bce).magUplinkDel bce).log - 1 := by
    unfold pmipTunnelDel at closes
    dsimp only at closes
    split at closes
    · cases closes
    · cases closes
      exact ⟨fun fixture => standing_inert (Effect.inert_tunnelDel _ _) fixture _, rfl⟩
  have sent : ∃ new, d'.log = new ++ closed.log ∧ ∀ effect ∈ new, effect.IsMessage := by
    split at done
    · cases done
      exact (worked_mhSendPbu closed env bce _ _ _).spoke
    · cases done
      exact ⟨[], rfl, fun _ member => by cases member⟩
  obtain ⟨new, isLog, messages⟩ := sent
  obtain ⟨standing, taken⟩ := spoke_keeps closed.log messages
  rw [isLog]
  constructor
  · intro fixture
    rw [standing, released.1, uplink.1, unrouted]
  · rw [taken, released.2, uplink.2, unreferenced]

end Procedures

/-! ## The invariant -/

def registeredEntries (d : Daemon) : List Nat :=
  d.entries.filter fun bce => (d.heap bce).type = .pmip

theorem mem_registeredEntries {d : Daemon} {bce : Nat} :
    bce ∈ d.registeredEntries ↔ bce ∈ d.entries ∧ (d.heap bce).type = .pmip := by
  simp [registeredEntries]

/-- Installed is what the registered nodes need, and every one of them has one
reference to a tunnel. -/
structure ResourcesConserved (conf : Conf) (d : Daemon) : Prop where
  fixtures : ∀ fixture : Fixture, fixture.standing d.log = true ↔
    ∃ bce ∈ d.registeredEntries, fixture.Wanted conf (d.heap bce).mnAddr (d.heap bce).link
  taken : references d.log = d.registeredEntries.length

end Daemon

theorem filter_toggle {list : List Nat} {before after : Nat → Bool} {bce : Nat} (once : list.Nodup)
    (member : bce ∈ list) (off : before bce = false) (on : after bce = true)
    (others : ∀ p, p ≠ bce → after p = before p) :
    (list.filter after).Perm (bce :: list.filter before) := by
  have perm := List.perm_cons_erase member
  have rest : (list.erase bce).filter after = (list.erase bce).filter before := by
    apply List.filter_congr
    intro p remains
    exact others p (once.mem_erase_iff.mp remains).1
  have first := perm.filter after
  have second := perm.filter before
  rw [List.filter_cons, if_pos on, rest] at first
  rw [List.filter_cons, off, if_neg (by simp)] at second
  exact first.trans (second.symm.cons bce)

def PmipEntry.lodging (e : PmipEntry) : In6Addr × In6Addr × In6Addr × Int :=
  (e.mnAddr, e.mnPrefix, e.mnSuffix, e.link)

namespace Daemon

structure ResourcesOk (conf : Conf) (d : Daemon) : Prop extends MagCacheOk d where
  conserved : ResourcesConserved conf d
  expiring : ∀ bce ∈ d.entries, d.tun.tq.task (.bce bce) = some .bceExpired →
    (d.heap bce).type = .pmip
  settled : ∀ bce ∈ d.registeredEntries,
    (d.heap bce).mnAddr = convertId2Addr (d.heap bce).mnPrefix (d.heap bce).mnSuffix
  apart : ∀ p ∈ d.registeredEntries, ∀ q ∈ d.registeredEntries,
    (d.heap p).mnAddr = (d.heap q).mnAddr → p = q

namespace ResourcesOk

variable {conf : Conf} {d d' : Daemon} {bce : Nat}

/-- A step after which the same nodes are registered at the same addresses, and
that only sent messages. -/
theorem unchanged (ok : ResourcesOk conf d) (next : MagCacheOk d')
    (spoke : ∃ sent, d'.log = sent ++ d.log ∧ ∀ effect ∈ sent, effect.IsMessage)
    (perm : d'.registeredEntries.Perm d.registeredEntries)
    (lodging : ∀ p ∈ d.registeredEntries, (d'.heap p).lodging = (d.heap p).lodging)
    (expiring : ∀ p ∈ d'.entries, d'.tun.tq.task (.bce p) = some .bceExpired →
      (d'.heap p).type = .pmip) : ResourcesOk conf d' := by
  obtain ⟨sent, isLog, messages⟩ := spoke
  obtain ⟨standing, taken⟩ := spoke_keeps d.log messages
  have same : ∀ p ∈ d.registeredEntries, (d'.heap p).mnAddr = (d.heap p).mnAddr ∧
      (d'.heap p).mnPrefix = (d.heap p).mnPrefix ∧ (d'.heap p).mnSuffix = (d.heap p).mnSuffix ∧
      (d'.heap p).link = (d.heap p).link := by
    intro p member
    simpa [PmipEntry.lodging] using lodging p member
  refine { next with conserved := ⟨fun fixture => ?_, ?_⟩, expiring := expiring, settled := ?_, apart := ?_ }
  · rw [isLog, standing, ok.conserved.fixtures]
    constructor
    · intro given
      obtain ⟨p, member, wanted⟩ := given
      refine ⟨p, perm.mem_iff.mpr member, ?_⟩
      rw [(same p member).1, (same p member).2.2.2]
      exact wanted
    · intro given
      obtain ⟨p, member, wanted⟩ := given
      have before := perm.mem_iff.mp member
      rw [(same p before).1, (same p before).2.2.2] at wanted
      exact ⟨p, before, wanted⟩
  · rw [isLog, taken, ok.conserved.taken, perm.length_eq]
  · intro p member
    have before := perm.mem_iff.mp member
    rw [(same p before).1, (same p before).2.1, (same p before).2.2.1]
    exact ok.settled p before
  · intro p isP q isQ equal
    have first := perm.mem_iff.mp isP
    have second := perm.mem_iff.mp isQ
    rw [(same p first).1, (same q second).1] at equal
    exact ok.apart p first q second equal

theorem worked (ok : ResourcesOk conf d) (member : bce ∈ d.entries) (work : Worked bce d d') :
    ResourcesOk conf d' := by
  have types : ∀ p, (d'.heap p).type = (d.heap p).type := by
    intro p
    by_cases here : p = bce
    · rw [here, work.frame.type]
    · rw [work.frame.others p here]
  have registered : d'.registeredEntries = d.registeredEntries := by
    simp only [registeredEntries]
    rw [work.frame.entries]
    apply List.filter_congr
    intro p _
    rw [types p]
  refine ok.unchanged (ok.toMagCacheOk.frame member work.frame.owner) work.spoke
    (registered ▸ List.Perm.refl _) ?_ ?_
  · intro p isRegistered
    by_cases here : p = bce
    · subst here
      have pfx := congrArg PmipEntry.mnPrefix work.frame.entry
      have suffix := congrArg PmipEntry.mnSuffix work.frame.entry
      have link := congrArg PmipEntry.link work.frame.entry
      simp only [PmipEntry.binding] at pfx suffix link
      have addr : (d'.heap p).mnAddr = (d.heap p).mnAddr := by
        rcases work.addr with same | computed
        · exact same
        · rw [computed, ok.settled p isRegistered]
      simp only [PmipEntry.lodging, addr, pfx, suffix, link]
    · rw [work.frame.others p here]
  · intro p isEntry task
    rw [types p]
    rw [work.frame.entries] at isEntry
    by_cases here : p = bce
    · subst here
      rcases work.timer task with before | isPmip
      · exact ok.expiring p isEntry before
      · exact isPmip
    · have slot := congrArg (·.2.2) (work.frame.slots p here)
      exact ok.expiring p isEntry (slot.symm.trans task)

theorem attached (ok : ResourcesOk conf d) {start : Daemon} {env : Env} {iif : Int}
    (member : bce ∈ d.entries) (wasTemp : (d.heap bce).type = .temp) (work : Worked bce d start)
    (free : ∀ p ∈ d.registeredEntries,
      (d.heap p).mnAddr ≠ convertId2Addr (d.heap bce).mnPrefix (d.heap bce).mnSuffix)
    (ended : start.magEndRegistration conf env bce iif = .ok d') : ResourcesOk conf d' := by
  have frame := work.frame.owner.trans ((frame_magEndRegistration conf start env bce iif).of_ok ended)
  have isPmip := magEndRegistration_type ended
  obtain ⟨addr, standing, taken⟩ := magEndRegistration_installs ended
  obtain ⟨sent, isLog, messages⟩ := work.spoke
  obtain ⟨kept, counted⟩ := spoke_keeps d.log messages
  have addr : (d'.heap bce).mnAddr =
      convertId2Addr (d.heap bce).mnPrefix (d.heap bce).mnSuffix := by
    have pfx := congrArg PmipEntry.mnPrefix work.frame.entry
    have suffix := congrArg PmipEntry.mnSuffix work.frame.entry
    simp only [PmipEntry.binding] at pfx suffix
    rw [addr, pfx, suffix]
  have new : bce ∉ d.registeredEntries := by
    rw [mem_registeredEntries, wasTemp]
    simp
  have others : ∀ p ∈ d.registeredEntries, d'.heap p = d.heap p := fun p isRegistered =>
    frame.others p fun here => new (here ▸ isRegistered)
  have perm : d'.registeredEntries.Perm (bce :: d.registeredEntries) := by
    simp only [registeredEntries]
    rw [frame.entries]
    apply filter_toggle ok.toHashOk.nodup member
    · simp [wasTemp]
    · simp [isPmip]
    · intro p different
      rw [frame.others p different]
  refine { ok.toMagCacheOk.frame member frame with
    conserved := ⟨fun fixture => ?_, ?_⟩
    expiring := ?_
    settled := ?_
    apart := ?_ }
  · rw [standing, isLog, kept, Bool.or_eq_true, decide_eq_true_iff, ok.conserved.fixtures]
    constructor
    · intro either
      rcases either with here | ⟨p, isRegistered, wanted⟩
      · exact ⟨bce, perm.mem_iff.mpr List.mem_cons_self, here⟩
      · refine ⟨p, perm.mem_iff.mpr (List.mem_cons_of_mem bce isRegistered), ?_⟩
        rw [others p isRegistered]
        exact wanted
    · intro given
      obtain ⟨p, isRegistered, wanted⟩ := given
      rcases List.mem_cons.mp (perm.mem_iff.mp isRegistered) with rfl | before
      · exact Or.inl wanted
      · rw [others p before] at wanted
        exact Or.inr ⟨p, before, wanted⟩
  · rw [taken, isLog, counted, ok.conserved.taken, perm.length_eq, List.length_cons]
    omega
  · intro p isEntry task
    by_cases here : p = bce
    · rw [here]
      exact isPmip
    · rw [frame.others p here]
      rw [frame.entries] at isEntry
      have slot := congrArg (·.2.2) (frame.slots p here)
      exact ok.expiring p isEntry (slot.symm.trans task)
  · intro p isRegistered
    rcases List.mem_cons.mp (perm.mem_iff.mp isRegistered) with rfl | before
    · have pfx := congrArg PmipEntry.mnPrefix frame.entry
      have suffix := congrArg PmipEntry.mnSuffix frame.entry
      simp only [PmipEntry.owner, PmipEntry.binding] at pfx suffix
      rw [addr, pfx, suffix]
    · rw [others p before]
      exact ok.settled p before
  · intro p isP q isQ equal
    rcases List.mem_cons.mp (perm.mem_iff.mp isP) with rfl | first
    · rcases List.mem_cons.mp (perm.mem_iff.mp isQ) with rfl | second
      · rfl
      · rw [addr, others q second] at equal
        exact absurd equal.symm (free q second)
    · rcases List.mem_cons.mp (perm.mem_iff.mp isQ) with rfl | second
      · rw [addr, others p first] at equal
        exact absurd equal (free p first)
      · rw [others p first, others q second] at equal
        exact ok.apart p first q second equal

theorem registered_delete (ok : ResourcesOk conf d) (member : bce ∈ d.entries)
    (frame : Frame PmipEntry.owner bce d d') :
    (∀ p ∈ (d'.pmipBceDelete bce).entries, p ≠ bce ∧ p ∈ d.entries ∧ d'.heap p = d.heap p) ∧
      d.registeredEntries.Perm
        (if (d.heap bce).type = .pmip then bce :: (d'.pmipBceDelete bce).registeredEntries
          else (d'.pmipBceDelete bce).registeredEntries) := by
  have perm : d.entries.Perm (bce :: (d'.pmipBceDelete bce).entries) := by
    rw [← frame.entries]
    exact (ok.toHashOk.frame_owner (ok.live bce member) frame).delete_entries
      (frame.entries ▸ member)
  have once := List.nodup_cons.mp (perm.nodup_iff.mp ok.toHashOk.nodup)
  have remaining : ∀ p ∈ (d'.pmipBceDelete bce).entries,
      p ≠ bce ∧ p ∈ d.entries ∧ d'.heap p = d.heap p := by
    intro p remains
    have different : p ≠ bce := fun here => once.1 (here ▸ remains)
    exact ⟨different, perm.mem_iff.mpr (List.mem_cons_of_mem bce remains),
      frame.others p different⟩
  have rest : (d'.pmipBceDelete bce).entries.filter (fun p => (d.heap p).type = .pmip) =
      (d'.pmipBceDelete bce).registeredEntries := by
    apply List.filter_congr
    intro p remains
    rw [delete_heap, (remaining p remains).2.2]
  refine ⟨remaining, (perm.filter _).trans ?_⟩
  rw [List.filter_cons, rest]
  by_cases isPmip : (d.heap bce).type = .pmip
  · simp [isPmip]
  · simp [isPmip]

theorem dropped (ok : ResourcesOk conf d) (member : bce ∈ d.entries) (work : Worked bce d d')
    (unregistered : (d.heap bce).type ≠ .pmip) : ResourcesOk conf (d'.pmipBceDelete bce) := by
  obtain ⟨remaining, perm⟩ := ok.registered_delete member work.frame.owner
  rw [if_neg unregistered] at perm
  have next := (ok.toMagCacheOk.frame member work.frame.owner).delete (work.frame.entries ▸ member)
  refine ok.unchanged next work.spoke perm.symm ?_ ?_
  · intro p isRegistered
    have remains := (mem_registeredEntries.mp (perm.mem_iff.mp isRegistered)).1
    rw [delete_heap, (remaining p remains).2.2]
  · intro p remains task
    obtain ⟨different, isEntry, heap⟩ := remaining p remains
    rw [delete_heap, heap]
    have slot := congrArg (·.2.2) (work.frame.slots p different)
    exact ok.expiring p isEntry (slot.symm.trans task)

theorem detached (ok : ResourcesOk conf d) {start mid : Daemon} {env : Env}
    (member : bce ∈ d.entries) (isPmip : (d.heap bce).type = .pmip) (work : Worked bce d start)
    (dereg : start.magDereg conf env bce true = .ok mid) :
    ResourcesOk conf (mid.pmipBceDelete bce) := by
  have frame := work.frame.owner.trans ((frame_magDereg conf start env bce true).of_ok dereg)
  obtain ⟨remaining, perm⟩ := ok.registered_delete member frame
  rw [if_pos isPmip] at perm
  have isRegistered : bce ∈ d.registeredEntries := mem_registeredEntries.mpr ⟨member, isPmip⟩
  obtain ⟨sent, isLog, messages⟩ := work.spoke
  obtain ⟨kept, counted⟩ := spoke_keeps d.log messages
  obtain ⟨removed, released⟩ := magDereg_removes dereg
  have pfx := congrArg PmipEntry.mnPrefix work.frame.entry
  have suffix := congrArg PmipEntry.mnSuffix work.frame.entry
  have link := congrArg PmipEntry.link work.frame.entry
  simp only [PmipEntry.binding] at pfx suffix link
  have others : ∀ p ∈ (mid.pmipBceDelete bce).registeredEntries,
      p ≠ bce ∧ p ∈ d.registeredEntries ∧ mid.heap p = d.heap p := by
    intro p remains
    obtain ⟨different, _, heap⟩ := remaining p (mem_registeredEntries.mp remains).1
    exact ⟨different, perm.mem_iff.mpr (List.mem_cons_of_mem bce remains), heap⟩
  refine { (ok.toMagCacheOk.frame member frame).delete (frame.entries ▸ member) with
    conserved := ⟨fun fixture => ?_, ?_⟩
    expiring := ?_
    settled := ?_
    apart := ?_ }
  · change fixture.standing mid.log = true ↔ _
    rw [removed, pfx, suffix, link, isLog, kept, ← ok.settled bce isRegistered,
      Bool.and_eq_true, Bool.not_eq_true', decide_eq_false_iff_not, ok.conserved.fixtures]
    constructor
    · intro given
      obtain ⟨notHere, p, before, wanted⟩ := given
      rcases List.mem_cons.mp (perm.mem_iff.mp before) with rfl | remains
      · exact absurd wanted notHere
      · refine ⟨p, remains, ?_⟩
        rw [delete_heap, (others p remains).2.2]
        exact wanted
    · intro given
      obtain ⟨p, remains, wanted⟩ := given
      obtain ⟨different, before, heap⟩ := others p remains
      rw [delete_heap, heap] at wanted
      refine ⟨fun here => ?_, p, before, wanted⟩
      -- no other node has the address
      exact different (ok.apart p before bce isRegistered (wanted.addr here))
  · change references mid.log = _
    rw [released, isLog, counted, ok.conserved.taken, perm.length_eq, List.length_cons]
    omega
  · intro p remains task
    obtain ⟨different, isEntry, heap⟩ := remaining p remains
    rw [delete_heap, heap]
    have slot := congrArg (·.2.2) (frame.slots p different)
    exact ok.expiring p isEntry (slot.symm.trans task)
  · intro p remains
    obtain ⟨_, before, heap⟩ := others p remains
    rw [delete_heap, heap]
    exact ok.settled p before
  · intro p isP q isQ equal
    obtain ⟨_, first, firstHeap⟩ := others p isP
    obtain ⟨_, second, secondHeap⟩ := others q isQ
    rw [delete_heap, firstHeap, secondHeap] at equal
    exact ok.apart p first q second equal

theorem touch (ok : ResourcesOk conf d) (used : List Nat) : ResourcesOk conf (d.touch used) :=
  ok.unchanged (ok.toMagCacheOk.touch used) ⟨[], rfl, fun _ member => by cases member⟩
    (List.Perm.refl _) (fun _ _ => rfl) ok.expiring

theorem registered (ok : ResourcesOk conf d) {env : Env} {info : MsgInfo} {map : List MnidHnp}
    {pfx : In6Addr} {nai : Nai} (free : d.cached nai conf.ourAddress = none)
    (mallocOk : env.nodeAlloc = true) :
    ResourcesOk conf ((d.registering conf env info map pfx nai).pmipCacheAdd conf env d.top) := by
  have frame := frame_registering conf d env info map pfx nai
  have added := pmipCacheAdd_added conf (d.registering conf env info map pfx nai) env d.top
  have perm := registered_perm conf env info map pfx ok.toHashOk free mallocOk
  have unregistered :
      (((d.registering conf env info map pfx nai).pmipCacheAdd conf env d.top).heap d.top).type ≠
        .pmip := by
    rw [registered_type]
    simp
  have old : ∀ p ∈ d.entries, ((d.registering conf env info map pfx nai).pmipCacheAdd conf env
      d.top).heap p = d.heap p := fun p member =>
    registered_heap conf d env info map pfx nai fun here => ok.toHashOk.top_notMem (here ▸ member)
  have spoke : ∃ sent, ((d.registering conf env info map pfx nai).pmipCacheAdd conf env
      d.top).log = sent ++ d.log ∧ ∀ effect ∈ sent, effect.IsMessage := by
    rw [(pmipCacheAdd_keeps conf _ env d.top).1]
    exact (worked_mhSendPbu _ env d.top conf.magAddressEgress conf.lmaAddress ⟨10, 0⟩).spoke
  refine ok.unchanged (ok.toMagCacheOk.registered free mallocOk) spoke ?_ ?_ ?_
  · have selected := perm.filter fun p =>
      (((d.registering conf env info map pfx nai).pmipCacheAdd conf env d.top).heap p).type = .pmip
    rw [List.filter_cons, if_neg (by simpa using unregistered)] at selected
    refine selected.trans (List.Perm.of_eq (List.filter_congr fun p member => ?_))
    rw [old p member]
  · intro p isRegistered
    rw [old p (mem_registeredEntries.mp isRegistered).1]
  · intro p member task
    rcases List.mem_cons.mp (perm.mem_iff.mp member) with rfl | before
    · -- its timer is that of the update
      rw [pmipCacheAdd_unstarted conf env (by rw [registering_type]; simp)] at task
      simp [registering, magPmipMd, magStartRegistration, startRetransmission, addTask] at task
    · have different : p ≠ d.top := fun here => ok.toHashOk.top_notMem (here ▸ before)
      have slot := congrArg (·.2.2) ((added.slots p different).trans (frame.slots p different))
      rw [old p before]
      exact ok.expiring p before (slot.symm.trans task)

theorem deregisters_registered (ok : ResourcesOk conf d) {input : MagInput}
    (member : bce ∈ d.entries) (asked : d.deregisters conf input = some bce) :
    (d.heap bce).type = .pmip := by
  cases input with
  | event info env =>
      simp only [deregisters] at asked
      split at asked
      · rename_i leaves
        exact cachedType_some leaves.2 asked
      · cases asked
  | fire env =>
      simp only [deregisters] at asked
      split at asked
      · rename_i p tq isPopped
        split at asked
        · rename_i silent
          cases asked
          obtain ⟨_, rfl⟩ := TQueue.runner_some isPopped
          exact ok.expiring bce member silent.1
        · cases asked
      · cases asked

end ResourcesOk

theorem resourcesOk_init (conf : Conf) (tun : Tunnels) (hnp : List MnidHnp)
    (unarmed : ∀ bce, .bce bce ∉ tun.tq.list) : ResourcesOk conf (init tun hnp) := by
  have none : (init tun hnp).registeredEntries = [] := by
    simp [registeredEntries, entries, init]
  refine { magCacheOk_init tun hnp unarmed with
    conserved := ⟨?_, ?_⟩
    expiring := by simp [entries, init]
    settled := by simp [none]
    apart := by simp [none] }
  · intro fixture
    rw [none]
    simp [init, Fixture.standing]
  · rw [none]
    rfl

/-- An acknowledgement that ends a registration is for an address that no
registered node has. -/
def AddressFree (conf : Conf) (d : Daemon) : MagInput → Prop
  | .event info _ =>
      info.msgEvent = .hasPBA → ∀ bce ∈ d.cached info.mnNai conf.ourAddress,
        (d.heap bce).type = .temp → ∀ p ∈ d.registeredEntries,
          (d.heap p).mnAddr ≠ convertId2Addr (d.heap bce).mnPrefix (d.heap bce).mnSuffix
  | .fire _ => True

instance (conf : Conf) (d : Daemon) : (input : MagInput) → Decidable (d.AddressFree conf input)
  | .event _ _ => inferInstanceAs (Decidable (_ → ∀ _, _ → _ → ∀ _, _ → _))
  | .fire _ => .isTrue trivial

/-- The update of a registered node is not given up; a registration finds its
key free, memory for its node and an address of its own. -/
def KeepsResources (conf : Conf) (d : Daemon) (input : MagInput) : Prop :=
  (∀ bce ∈ d.exhausts input, (d.heap bce).type ≠ .pmip) ∧ d.InsertionSucceeds conf input ∧
    d.AddressFree conf input

instance (conf : Conf) (d : Daemon) (input : MagInput) : Decidable (d.KeepsResources conf input) :=
  inferInstanceAs (Decidable ((∀ _, _ → _) ∧ _ ∧ _))

theorem magStep_resources {conf : Conf} (isMag : conf.mip6Entity = .mag) (d : Daemon)
    (input : MagInput) (d' : Daemon) (ok : ResourcesOk conf d)
    (keeps : d.KeepsResources conf input) (taken : d.magStep conf input = .ok d') :
    ResourcesOk conf d' := by
  obtain ⟨spares, inserts, free⟩ := keeps
  have next := magStep_cacheOk isMag d input d' ok.toMagCacheOk inserts taken
  cases magStep_move isMag taken with
  | looked used => exact ok.touch used
  | leaked used =>
      have old : ∀ p ∈ d.entries, ((d.touch used).allocated .temp).heap p = d.heap p := by
        intro p member
        have different : p ≠ d.top := fun here => ok.toHashOk.top_notMem (here ▸ member)
        simp [allocated, Daemon.touch, Function.update_of_ne different]
      refine ok.unchanged next ⟨[], rfl, fun _ member => by cases member⟩ ?_ ?_ ?_
      · refine List.Perm.of_eq (List.filter_congr fun p member => ?_)
        rw [old p member]
      · intro p isRegistered
        rw [old p (mem_registeredEntries.mp isRegistered).1]
      · intro p member task
        rw [old p member]
        exact ok.expiring p member task
  | registered used missing starts answer =>
      obtain ⟨free, mallocOk⟩ := inserts starts missing _ (by rw [answer]; rfl)
      exact (ok.touch used).registered free mallocOk
  | worked known work => exact ok.worked (ok.mem_of_known known) work
  | @attached info env bce start _ event found wasTemp work ended =>
      exact ok.attached (cached_some found).1 wasTemp work (free event bce found wasTemp) ended
  | @detached _ bce start mid known asked work dereg =>
      have member := ok.mem_of_known known
      exact ok.detached member (ok.deregisters_registered member asked) work dereg
  | @dropped _ bce start known spent work =>
      exact ok.dropped (ok.mem_of_known known) work (spares bce spent)
  | tunnelExpired queued =>
      exact ok.unchanged next ⟨[], rfl, fun _ member => by cases member⟩ (List.Perm.refl _)
        (fun _ _ => rfl) ok.expiring

/-- In every run in which no update of a registered node is given up and the
registrations get entries and addresses of their own, what is installed at the
end is what the registered nodes need. -/
theorem mag_resources_conserved (conf : Conf) (isMag : conf.mip6Entity = .mag) (tun : Tunnels)
    (unarmed : ∀ bce, .bce bce ∉ tun.tq.list) (hnp : List MnidHnp) (inputs : List MagInput)
    (meets : Meets (magStep conf) (KeepsResources conf) (init tun hnp) inputs)
    (final : Daemon) (finished : run (magStep conf) (init tun hnp) inputs = .ok final) :
    ResourcesConserved conf final :=
  (run_invariant (magStep_resources isMag) (resourcesOk_init conf tun hnp unarmed) meets
    finished).conserved

/-- Two nodes join and one of them leaves. -/
theorem mag_resources_conserved_left :
    ∃ final, run (magStep (confDynamic .mag)) (init Tunnels.init twoNodes)
        (joins 1 0 10 ++ joins 2 1 11 ++ [leaves 1]) = .ok final ∧
      final.registeredEntries = [1] ∧ ResourcesConserved (confDynamic .mag) final := by
  refine ⟨_, rfl, by decide +kernel, ?_⟩
  exact mag_resources_conserved (confDynamic .mag) rfl Tunnels.init (fun _ => List.not_mem_nil)
    twoNodes (joins 1 0 10 ++ joins 2 1 11 ++ [leaves 1]) (by decide +kernel) _ rfl

/-- A registered node is associated again, and the update that this sends is
never acknowledged. -/
def unanswered (n : UInt8) : List MagInput :=
  .event { MsgInfo.zero with
      msgEvent := .hasWLCCP
      mnIid := nodeIid n
      mnNai := nodeNai n } (Env.ample ⟨101, 0⟩ 10) ::
    [103, 105, 107, 109, 111, 113].map fun sec => .fire (Env.ample ⟨sec, 0⟩ 10)

/-- The entry goes with the last retransmission, its rules and its route stay. -/
theorem mag_resources_leaked :
    ¬ ∀ (inputs : List MagInput) (final : Daemon),
      run (magStep (confDefault .mag)) (init Tunnels.init twoNodes) inputs = .ok final →
        ResourcesConserved (confDefault .mag) final := by
  intro claimed
  have conserved := claimed (joins 1 0 10 ++ unanswered 1) _ rfl
  have counted := conserved.taken
  revert counted
  decide +kernel

end Daemon

end OaiPmip
