import OaiPmip.MagTunnel

/-!
# The bound on retransmissions and probes

`n_rets_counter` is shared by the two timer handlers of an entry.  It starts at
`MaxMessageRetransmissions`, an acknowledgement that is accepted and a
neighbour advertisement put it back there, and every message that one of the
handlers sends takes one off.  So the messages since the last of these events
and the counter add up to `MaxMessageRetransmissions`, and with the counter at
zero the next firing deletes the entry.
-/

set_option autoImplicit false

namespace OaiPmip

open OaiPmip.ChainTable OaiPmip.HashChains OaiPmip.HashKeys OaiPmip.Runs

namespace Daemon

def counters (d : Daemon) (p : Nat) : Int := (d.heap p).nRetsCounter

section Counters
variable (conf : Conf) (d : Daemon) (env : Env) (bce : Nat)

@[simp] theorem counters_emit (effect : Effect) : (d.emit effect).counters = d.counters := rfl

@[simp] theorem counters_delTask : (d.delTask bce).counters = d.counters := rfl

@[simp] theorem counters_delete : (d.pmipBceDelete bce).counters = d.counters := rfl

theorem counters_modify (write : PmipEntry → PmipEntry) :
    (d.modify bce write).counters =
      Function.update d.counters bce (write (d.heap bce)).nRetsCounter := by
  funext p
  by_cases here : p = bce
  · subst here
    simp [counters, modify]
  · simp [counters, modify, Function.update_of_ne here]

@[simp] theorem counters_written {write : PmipEntry → PmipEntry}
    (kept : ∀ e, (write e).nRetsCounter = e.nRetsCounter) :
    (d.modify bce write).counters = d.counters := by
  rw [counters_modify, kept]
  exact Function.update_eq_self bce d.counters

@[simp] theorem counters_addTask (now timeOut : Timespec) (task : Task) :
    (d.addTask now timeOut bce task).counters = d.counters := by
  have written : (d.modify bce fun e => { e with addTime := now }).counters = d.counters := by simp
  exact written

@[simp] theorem counters_getMnAddr : (d.getMnAddr bce).counters = d.counters := by
  simp [getMnAddr]

@[simp] theorem counters_cacheStart : (d.pmipCacheStart env bce).counters = d.counters :=
  counters_addTask d bce _ _ _

@[simp] theorem counters_startRetransmission :
    (d.startRetransmission conf env bce).counters = d.counters :=
  counters_addTask d bce _ _ _

@[simp] theorem counters_mhSendPbu (src dst : In6Addr) (lifetime : Timespec) :
    (d.mhSendPbu env src dst bce lifetime).counters = d.counters := by
  simp only [mhSendPbu]
  split
  · simp only [counters_written, counters_emit, implies_true]
    rfl
  · rfl

@[simp] theorem counters_magKickoffRa : (d.magKickoffRa bce).counters = d.counters := rfl

@[simp] theorem counters_magForceUpdateRegistration :
    (d.magForceUpdateRegistration conf env bce).counters = d.counters := by
  simp only [magForceUpdateRegistration, counters_startRetransmission, counters_mhSendPbu]
  split
  · rfl
  · rfl

@[simp] theorem counters_magSetupRoute (pmip6Addr : In6Addr) (downlink : Int) :
    (d.magSetupRoute conf pmip6Addr downlink).counters = d.counters := by
  simp only [magSetupRoute]
  split
  · rfl
  · rfl

@[simp] theorem counters_magRemoveRoute (pmip6Addr : In6Addr) (downlink : Int) :
    (d.magRemoveRoute conf pmip6Addr downlink).counters = d.counters := by
  simp only [magRemoveRoute]
  split
  · rfl
  · rfl

@[simp] theorem counters_magUplinkAdd : (d.magUplinkAdd bce).counters = d.counters := by
  simp only [magUplinkAdd]
  split
  · rfl
  · rfl

@[simp] theorem counters_magUplinkDel : (d.magUplinkDel bce).counters = d.counters := by
  simp only [magUplinkDel]
  split
  · rfl
  · rfl

@[simp] theorem counters_registered :
    (d.registered conf env bce).counters =
      Function.update d.counters bce conf.maxMessageRetransmissions := by
  rw [registered, counters_cacheStart, counters_modify]

theorem counters_tunnelAdd {d' : Daemon} {remote : In6Addr} {link : Int}
    (added : d.pmipTunnelAdd conf env bce remote link = .ok d') : d'.counters = d.counters := by
  simp only [pmipTunnelAdd] at added
  split at added
  · cases added
  · cases added
    simp only [counters_written, counters_emit, implies_true]
    rfl

theorem counters_tunnelDel {d' : Daemon} (deleted : d.pmipTunnelDel conf env bce = .ok d') :
    d'.counters = d.counters := by
  simp only [pmipTunnelDel] at deleted
  split at deleted
  · cases deleted
  · cases deleted
    rfl

theorem counters_magEndRegistration {d' : Daemon} {iif : Int}
    (ended : d.magEndRegistration conf env bce iif = .ok d') :
    d'.counters = Function.update d.counters bce conf.maxMessageRetransmissions := by
  obtain ⟨tunnelled, added, rest⟩ := bind_eq_ok.mp ended
  cases rest
  rw [counters_magSetupRoute, counters_getMnAddr, counters_magKickoffRa, counters_magUplinkAdd,
    counters_tunnelAdd conf _ env bce added, counters_registered]

theorem counters_magDereg {d' : Daemon} {propagate : Bool}
    (dereg : d.magDereg conf env bce propagate = .ok d') : d'.counters = d.counters := by
  obtain ⟨released, deleted, rest⟩ := bind_eq_ok.mp dereg
  have before : released.counters = d.counters := by
    rw [counters_tunnelDel conf _ env bce deleted]
    simp [magUnroute]
  split at rest
  · cases rest
    rw [counters_mhSendPbu, before]
  · cases rest
    exact before

end Counters

theorem counters_allocated (d : Daemon) (type : BceType) {p : Nat} (old : p ≠ d.top) :
    (d.allocated type).counters p = d.counters p := by
  simp [counters, allocated, Function.update_of_ne old]

theorem counters_allocated_top (d : Daemon) (type : BceType) :
    (d.allocated type).counters d.top = 0 := by
  simp [counters, allocated, PmipEntry.blank]

theorem counters_registering (conf : Conf) (d : Daemon) (env : Env) (info : MsgInfo)
    (map : List MnidHnp) (pfx : In6Addr) (nai : Nai) :
    (d.registering conf env info map pfx nai).counters = (d.allocated .temp).counters := by
  simp only [registering, magPmipMd, magStartRegistration, counters_startRetransmission,
    counters_mhSendPbu, counters_written, implies_true]
  rfl

theorem counters_inserted (conf : Conf) (d : Daemon) (env : Env) (bce : Nat) :
    (d.inserted conf env bce).counters =
      Function.update d.counters bce conf.maxMessageRetransmissions := by
  simp only [inserted]
  split
  · rw [counters_cacheStart, counters_modify]
  · rw [counters_modify]

theorem counters_nextBid (d : Daemon) (bce : Nat) : (d.nextBid bce).counters = d.counters := by
  simp only [nextBid, counters_written, implies_true]
  rfl

theorem counters_cacheAdd (conf : Conf) (d : Daemon) (env : Env) (bce : Nat) :
    ((d.pmipCacheAdd conf env bce).entries = d.entries ∧
        (d.pmipCacheAdd conf env bce).counters = d.counters) ∨
      (bce ∈ (d.pmipCacheAdd conf env bce).entries ∧ (d.pmipCacheAdd conf env bce).counters =
        Function.update d.counters bce conf.maxMessageRetransmissions) := by
  have heap := (cacheInsert_keeps (d.nextBid bce) env bce).1
  have before : ((d.nextBid bce).pmipcacheInsert env bce).1.counters = d.counters := by
    rw [← counters_nextBid d bce]
    funext p
    simp only [counters, heap]
  simp only [pmipCacheAdd, pmipcacheInsert] at before ⊢
  split at before
  · rename_i isAdded
    right
    rw [if_pos isAdded]
    simp only
    rw [counters_inserted, before]
    refine ⟨?_, rfl⟩
    rw [(frame_inserted conf _ env bce).entries]
    simp only [entries]
    unfold tableAdd at isAdded ⊢
    split
    · rename_i memory
      rw [if_pos memory] at isAdded
      split
      · rename_i known
        rw [if_pos known] at isAdded
        cases isAdded
      · exact (toList_append_perm _ _ _).mem_iff.mpr List.mem_cons_self
    · rename_i memory
      rw [if_neg memory] at isAdded
      cases isAdded
  · rename_i refused
    left
    rw [if_neg refused]
    exact ⟨rfl, before⟩

/-! ## Events -/

def Resets (conf : Conf) (d : Daemon) (p : Nat) : MagInput → Prop
  | .event info _ =>
      d.cached info.mnNai conf.ourAddress = some p ∧
        ((info.msgEvent = .hasPBA ∧ info.dst = conf.magAddressEgress ∧
            (d.heap p).type ≠ .noEntry ∧ isPbaResponse info (d.heap p) = true) ∨
          (info.msgEvent = .hasNA ∧ (d.heap p).type = .pmip))
  | .fire _ => False

instance (conf : Conf) (d : Daemon) (p : Nat) : (input : MagInput) → Decidable (Resets conf d p input)
  | .event _ _ => inferInstanceAs (Decidable (_ ∧ _))
  | .fire _ => .isFalse id

section Events
variable {conf : Conf} {d d' : Daemon} {env : Env} {info : MsgInfo} {p : Nat}

theorem not_resets_of_type (isType : d.cachedType info.mnNai conf.ourAddress = .noEntry) :
    ¬Resets conf d p (.event info env) := by
  intro resets
  obtain ⟨found, kinds⟩ := resets
  have noType := cachedType_some isType found
  rcases kinds with ⟨-, -, typed, -⟩ | ⟨-, isPmip⟩
  · exact typed noType
  · rw [noType] at isPmip
    cases isPmip

def NewCounter (conf : Conf) (d d' : Daemon) (p : Nat) : Prop :=
  p = d.top ∧ ((p ∈ d'.entries ∧ d'.counters p = conf.maxMessageRetransmissions) ∨
    (d'.entries = d.entries ∧ d'.counters p = 0))

theorem magRegister_counters {used : List Nat} (p : Nat)
    (taken : (d.touch used).magRegister conf env info = .ok d') :
    (d'.counters p = d.counters p ∧ (p = d.top → d'.entries = d.entries)) ∨
      NewCounter conf d d' p := by
  simp only [magRegister, pmipCacheAlloc_eq] at taken
  cases isAllocated : env.entryAlloc with
  | false =>
      simp only [isAllocated, Bool.false_eq_true, if_false] at taken
      split at taken
      · cases taken
        exact Or.inl ⟨rfl, fun _ => rfl⟩
      · cases taken
      · rename_i isSome
        cases isSome
  | true =>
      simp only [isAllocated, if_true] at taken
      split at taken
      · cases taken
        by_cases new : p = d.top
        · subst new
          exact Or.inr ⟨rfl, Or.inr ⟨rfl, counters_allocated_top d .temp⟩⟩
        · exact Or.inl ⟨counters_allocated d .temp new, fun isTop => absurd isTop new⟩
      · rename_i isNone
        cases isNone
      · rename_i pfx nai bce answer isTop
        cases isTop
        cases taken
        let map := (HnpCache.mnidHnpMap d.hnp env.radius (eui64ToEui48 info.mnIid) info.mnNai).1
        have before := counters_registering conf (d.touch used) env info map pfx nai
        have entries : ((d.touch used).registering conf env info map pfx nai).entries = d.entries :=
          (frame_registering conf (d.touch used) env info map pfx nai).entries
        have added := counters_cacheAdd conf ((d.touch used).registering conf env info map pfx nai)
          env d.top
        rw [before, entries] at added
        by_cases new : p = d.top
        · subst new
          rcases added with ⟨unlinked, same⟩ | ⟨linked, set_⟩
          · refine Or.inr ⟨rfl, Or.inr ⟨unlinked, ?_⟩⟩
            exact (congrFun same d.top).trans (counters_allocated_top d .temp)
          · refine Or.inr ⟨rfl, Or.inl ⟨linked, ?_⟩⟩
            exact (congrFun set_ d.top).trans (Function.update_self ..)
        · refine Or.inl ⟨?_, fun isTop => absurd isTop new⟩
          rcases added with ⟨-, same⟩ | ⟨-, set_⟩
          · exact (congrFun same p).trans (counters_allocated d .temp new)
          · exact (congrFun set_ p).trans
              ((Function.update_of_ne new _ _).trans (counters_allocated d .temp new))

theorem magNoEntry_counters {used : List Nat} (p : Nat)
    (taken : (d.touch used).magNoEntry conf env info = .ok d') :
    (d'.counters p = d.counters p ∧ (p = d.top → d'.entries = d.entries)) ∨
      NewCounter conf d d' p := by
  simp only [magNoEntry] at taken
  split at taken
  · split at taken
    · exact magRegister_counters p taken
    · exact magRegister_counters p taken
    · exact magRegister_counters p taken
    · cases taken
      exact Or.inl ⟨rfl, fun _ => rfl⟩
  · cases taken
    exact Or.inl ⟨rfl, fun _ => rfl⟩

theorem getEntry_counters {used : List Nat} {mnNai : Nai} {magAddr : In6Addr} {bce : Nat}
    (got : (d.touch used).getEntry mnNai magAddr = .ok (d', bce)) :
    d.cached mnNai magAddr = some bce ∧ d'.heap = d.heap ∧ d'.counters = d.counters := by
  obtain ⟨found, rfl⟩ := getEntry_ok got
  exact ⟨found, rfl, rfl⟩

theorem update_at {counters : Nat → Int} {bce : Nat} {value : Int} {reset : Prop} [Decidable reset]
    (isReset : reset ↔ bce = p) :
    Function.update counters bce value p = if reset then value else counters p := by
  by_cases here : bce = p
  · subst here
    rw [Function.update_self, if_pos (isReset.mpr rfl)]
  · rw [Function.update_of_ne (Ne.symm here), if_neg fun reset => here (isReset.mp reset)]

theorem resets_of_response {bce : Nat} (found : d.cached info.mnNai conf.ourAddress = some bce)
    (event : info.msgEvent = .hasPBA) (addressed : info.dst = conf.magAddressEgress)
    (linked : (d.heap bce).type ≠ .noEntry)
    (response : Daemon.isPbaResponse info (d.heap bce) = true) :
    Resets conf d p (.event info env) ↔ bce = p := by
  simp only [Resets, found, event, addressed]
  constructor
  · intro resets
    exact Option.some.inj resets.1
  · intro here
    subst here
    exact ⟨rfl, Or.inl ⟨trivial, trivial, linked, response⟩⟩

theorem not_resets_of_refused {bce : Nat}
    (found : d.cached info.mnNai conf.ourAddress = some bce) (event : info.msgEvent = .hasPBA)
    (refused : ¬Daemon.isPbaResponse info (d.heap bce) = true) :
    ¬Resets conf d p (.event info env) := by
  intro resets
  obtain ⟨isHere, kinds⟩ := resets
  rw [found] at isHere
  cases isHere
  rcases kinds with ⟨-, -, -, accepted⟩ | ⟨advertised, -⟩
  · exact refused accepted
  · rw [event] at advertised
    cases advertised

theorem magTemp_counters {used : List Nat}
    (addressed : info.msgEvent = .hasPBA → info.dst = conf.magAddressEgress)
    (isTemp : d.cachedType info.mnNai conf.ourAddress = .temp)
    (taken : (d.touch used).magTemp conf env info = .ok d') :
    d'.counters p = if Resets conf d p (.event info env) then conf.maxMessageRetransmissions
      else d.counters p := by
  simp only [magTemp] at taken
  split at taken
  · rename_i event
    obtain ⟨⟨start, bce⟩, got, taken⟩ := bind_eq_ok.mp taken
    obtain ⟨found, heap, same⟩ := getEntry_counters got
    have type := cachedType_some isTemp found
    simp only at taken
    split at taken
    · rename_i response
      rw [counters_magEndRegistration conf _ env bce taken]
      simp only [counters_written, counters_delTask, same, implies_true]
      rw [heap] at response
      exact update_at
        (resets_of_response found event (addressed event) (by simp [type]) response)
    · rename_i response
      cases taken
      rw [heap] at response
      rw [same, if_neg (not_resets_of_refused found event response)]
  · rename_i other
    cases taken
    rw [if_neg]
    · rfl
    · intro resets
      obtain ⟨found, kinds⟩ := resets
      rcases kinds with ⟨isPba, -⟩ | ⟨-, isPmip⟩
      · exact other isPba
      · rw [cachedType_some isTemp found] at isPmip
        cases isPmip

theorem magPmip_counters {used : List Nat}
    (addressed : info.msgEvent = .hasPBA → info.dst = conf.magAddressEgress)
    (isPmip : d.cachedType info.mnNai conf.ourAddress = .pmip)
    (taken : (d.touch used).magPmip conf env info = .ok d') :
    d'.counters p = if Resets conf d p (.event info env) then conf.maxMessageRetransmissions
      else d.counters p := by
  have silent : info.msgEvent ≠ .hasPBA → info.msgEvent ≠ .hasNA →
      ¬Resets conf d p (.event info env) := by
    intro noPba noNa resets
    rcases resets.2 with ⟨isPba, -⟩ | ⟨isNa, -⟩
    · exact noPba isPba
    · exact noNa isNa
  simp only [magPmip] at taken
  split at taken
  · -- a router solicitation
    rename_i event
    obtain ⟨⟨start, bce⟩, got, taken⟩ := bind_eq_ok.mp taken
    cases taken
    rw [if_neg (silent (by simp [event]) (by simp [event])), counters_magKickoffRa,
      (getEntry_counters got).2.2]
  · -- an acknowledgement
    rename_i event
    obtain ⟨⟨start, bce⟩, got, taken⟩ := bind_eq_ok.mp taken
    obtain ⟨found, heap, same⟩ := getEntry_counters got
    have type := cachedType_some isPmip found
    simp only at taken
    split at taken
    · rename_i response
      cases taken
      simp only [magEndRegistrationNoNewTunnel, counters_magKickoffRa, counters_registered,
        counters_written, counters_delTask, same, implies_true]
      rw [heap] at response
      exact update_at
        (resets_of_response found event (addressed event) (by simp [type]) response)
    · rename_i response
      cases taken
      rw [heap] at response
      rw [same, if_neg (not_resets_of_refused found event response)]
  · -- an association seen again
    rename_i event
    obtain ⟨⟨start, bce⟩, got, taken⟩ := bind_eq_ok.mp taken
    cases taken
    rw [if_neg (silent (by simp [event]) (by simp [event])),
      counters_magForceUpdateRegistration, counters_magKickoffRa, (getEntry_counters got).2.2]
  · rename_i event
    obtain ⟨⟨start, bce⟩, got, taken⟩ := bind_eq_ok.mp taken
    cases taken
    rw [if_neg (silent (by simp [event]) (by simp [event])),
      counters_magForceUpdateRegistration, counters_magKickoffRa, (getEntry_counters got).2.2]
  · -- a deassociation
    rename_i event
    obtain ⟨⟨start, bce⟩, got, taken⟩ := bind_eq_ok.mp taken
    obtain ⟨mid, dereg, taken⟩ := bind_eq_ok.mp taken
    cases taken
    rw [if_neg (silent (by simp [event]) (by simp [event])), counters_delete,
      counters_magDereg conf _ env bce dereg, (getEntry_counters got).2.2]
  · -- a neighbour advertisement
    rename_i event
    obtain ⟨⟨start, bce⟩, got, taken⟩ := bind_eq_ok.mp taken
    obtain ⟨found, heap, same⟩ := getEntry_counters got
    cases taken
    rw [counters_magForceUpdateRegistration, counters_delTask, counters_modify, same]
    apply update_at
    simp only [Resets, found, event]
    constructor
    · intro resets
      exact Option.some.inj resets.1
    · intro same
      subst same
      exact ⟨rfl, Or.inr ⟨trivial, cachedType_some isPmip found⟩⟩
  · rename_i noPba _ _ _ noNa
    cases taken
    rw [if_neg (silent noPba noNa)]
    rfl

/-- Only the registration of an unknown node adds an entry, and a new one. -/
theorem move_entries {input : MagInput} (move : MagMove conf d input d') :
    d.top ≤ d'.top ∧ ((∀ q ∈ d'.entries, q ∈ d.entries) ∨
      (d'.top = d.top + 1 ∧ (∀ q ∈ d'.entries, q = d.top ∨ q ∈ d.entries) ∧
        ∃ info env, input = .event info env ∧
          d.cachedType info.mnNai conf.ourAddress = .noEntry)) := by
  cases move with
  | looked used => exact ⟨Nat.le_refl _, Or.inl fun q member => member⟩
  | leaked used => exact ⟨Nat.le_succ _, Or.inl fun q member => member⟩
  | @registered info env map pfx nai used missing _ _ =>
      have frame := frame_registering conf (d.touch used) env info map pfx nai
      have added := pmipCacheAdd_added conf
        ((d.touch used).registering conf env info map pfx nai) env d.top
      have top : _ = d.top + 1 := added.top.trans frame.top
      have entries : ((d.touch used).registering conf env info map pfx nai).entries = d.entries :=
        frame.entries
      refine ⟨by rw [top]; exact Nat.le_succ _, Or.inr ⟨top, ?_, info, env, rfl, missing⟩⟩
      rw [← entries]
      exact added.mem_entries
  | worked _ work =>
      rw [work.frame.top, work.frame.entries]
      exact ⟨Nat.le_refl _, Or.inl fun q member => member⟩
  | attached _ _ _ work ended =>
      have frame := work.frame.owner.trans ((frame_magEndRegistration conf _ _ _ _).of_ok ended)
      rw [frame.top, frame.entries]
      exact ⟨Nat.le_refl _, Or.inl fun q member => member⟩
  | detached _ _ work dereg =>
      have frame := work.frame.owner.trans ((frame_magDereg conf _ _ _ true).of_ok dereg)
      refine ⟨Nat.le_of_eq frame.top.symm, Or.inl fun q member => ?_⟩
      rw [← frame.entries]
      exact delete_entries_subset _ _ q member
  | dropped _ _ work =>
      refine ⟨Nat.le_of_eq work.frame.top.symm, Or.inl fun q member => ?_⟩
      rw [← work.frame.entries]
      exact delete_entries_subset _ _ q member
  | tunnelExpired _ => exact ⟨Nat.le_refl _, Or.inl fun q member => member⟩

theorem move_entries_known (move : MagMove conf d (.event info env) d')
    (known : d.cachedType info.mnNai conf.ourAddress ≠ .noEntry) :
    ∀ q ∈ d'.entries, q ∈ d.entries := by
  rcases (move_entries move).2 with fewer | ⟨-, -, other, _, same, missing⟩
  · exact fewer
  · cases same
    exact absurd missing known

theorem magFsm_counters (p : Nat) (taken : d.magFsm conf env info = .ok d') :
    (d'.counters p = (if Resets conf d p (.event info env) then conf.maxMessageRetransmissions
        else d.counters p) ∧ (p = d.top → p ∈ d'.entries → p ∈ d.entries)) ∨
      NewCounter conf d d' p := by
  have move := magFsm_move taken
  simp only [magFsm] at taken
  split at taken
  · rename_i elsewhere
    cases taken
    left
    rw [if_neg]
    · exact ⟨rfl, fun _ member => member⟩
    · intro resets
      rcases resets.2 with ⟨-, here, -⟩ | ⟨isNa, -⟩
      · exact elsewhere.2 here
      · rw [elsewhere.1] at isNa
        cases isNa
  · rename_i arrived
    have addressed : info.msgEvent = .hasPBA → info.dst = conf.magAddressEgress := by
      intro event
      by_contra elsewhere
      exact arrived ⟨event, elsewhere⟩
    rw [pmipCacheExists_eq] at taken
    cases isType : d.cachedType info.mnNai conf.ourAddress with
    | noEntry =>
        rw [isType] at taken
        rw [if_neg (not_resets_of_type isType)]
        rcases magNoEntry_counters p taken with ⟨same, entries⟩ | new
        · exact Or.inl ⟨same, fun isTop member => entries isTop ▸ member⟩
        · exact Or.inr new
    | temp =>
        rw [isType] at taken
        have entries := move_entries_known move (by simp [isType])
        exact Or.inl ⟨magTemp_counters addressed isType taken, fun _ => entries p⟩
    | pmip =>
        rw [isType] at taken
        have entries := move_entries_known move (by simp [isType])
        exact Or.inl ⟨magPmip_counters addressed isType taken, fun _ => entries p⟩

end Events

/-! ## Timers and runs -/

def sentBy (task : Task) : Effect → Bool
  | .sendPbu _ _ _ _ => task = .retransPbu
  | .sendNs _ _ => task = .bceExpired
  | _ => false

/-- The retransmissions and probes that a step sends from a timer of `p`. -/
def timerSends (d next : Daemon) (p : Nat) : MagInput → Nat
  | .event _ _ => 0
  | .fire env =>
      match d.tun.tq.runner env.now with
      | some (.bce bce, tq) =>
          if bce = p then
            match tq.task (.bce bce) with
            | some task => next.log.countP (sentBy task) - d.log.countP (sentBy task)
            | none => 0
          else 0
      | _ => 0

/-- The firing of one of the two timer handlers for `p`. -/
def Fires (d : Daemon) (env : Env) (p : Nat) : Prop :=
  ∃ tq, d.tun.tq.runner env.now = some (.bce p, tq) ∧
    (tq.task (.bce p) = some .retransPbu ∨ tq.task (.bce p) = some .bceExpired)

section Timers
variable {conf : Conf} {d d' : Daemon} {env : Env} {p : Nat}

theorem magDereg_probes {bce : Nat} (dereg : d.magDereg conf env bce true = .ok d') :
    d'.log.countP (sentBy .bceExpired) = d.log.countP (sentBy .bceExpired) := by
  obtain ⟨released, deleted, rest⟩ := bind_eq_ok.mp dereg
  have unrouted : (d.magUnroute conf bce).log.countP (sentBy .bceExpired) =
      d.log.countP (sentBy .bceExpired) := by
    simp only [magUnroute, magRemoveRoute]
    split
    · simp [emit, getMnAddr, modify, touch, sentBy]
    · simp [emit, getMnAddr, modify, touch, sentBy]
  have uplink : ((d.magUnroute conf bce).magUplinkDel bce).log.countP (sentBy .bceExpired) =
      d.log.countP (sentBy .bceExpired) := by
    rw [← unrouted]
    simp only [magUplinkDel]
    split
    · simp [emit, sentBy]
    · rfl
  have tunnel : released.log.countP (sentBy .bceExpired) = d.log.countP (sentBy .bceExpired) := by
    rw [← uplink]
    simp only [pmipTunnelDel] at deleted
    split at deleted
    · cases deleted
    · cases deleted
      simp [emit, sentBy]
  cases rest
  rw [← tunnel]
  simp only [mhSendPbu]
  split
  · simp [emit, modify, touch, sentBy]
  · rfl

/-- With the counter at zero a handler sends nothing of its kind, else it sends
one message and counts it. -/
def Spends (task : Task) (bce : Nat) (d d' : Daemon) : Prop :=
  (d.counters bce = 0 ∧ d'.counters = d.counters ∧
      d'.log.countP (sentBy task) = d.log.countP (sentBy task)) ∨
    (d.counters bce ≠ 0 ∧ d'.counters = Function.update d.counters bce (d.counters bce - 1) ∧
      d'.log.countP (sentBy task) = d.log.countP (sentBy task) + 1)

theorem retransPbu_spends {bce : Nat}
    (taken : d.pmipTimerRetransPbuHandler conf env bce = .ok d') :
    Spends .retransPbu bce d d' := by
  simp only [pmipTimerRetransPbuHandler] at taken
  split at taken
  · rename_i spent
    cases taken
    exact Or.inl ⟨spent, rfl, rfl⟩
  · rename_i left
    split at taken
    · cases taken
    · cases taken
      refine Or.inr ⟨left, ?_, ?_⟩
      · simp only [counters_startRetransmission, counters_emit, counters_written, implies_true]
        rw [counters_modify]
        rfl
      · simp [startRetransmission, addTask, emit, modify, touch, sentBy]

theorem bceExpired_spends (isMag : conf.mip6Entity = .mag) {bce : Nat}
    (taken : d.pmipTimerBceExpiredHandler conf env bce = .ok d') :
    Spends .bceExpired bce d d' := by
  simp only [pmipTimerBceExpiredHandler, isMag] at taken
  split at taken
  · rename_i spent
    obtain ⟨mid, dereg, taken⟩ := bind_eq_ok.mp taken
    cases taken
    have quiet := magDereg_probes dereg
    have same := counters_magDereg conf d env bce dereg
    exact Or.inl ⟨spent, same, quiet⟩
  · rename_i left
    cases taken
    refine Or.inr ⟨left, ?_, ?_⟩
    · rw [counters_modify]
      have before : ∀ start : Daemon, start.counters = d.counters →
          Function.update start.counters bce ((start.heap bce).nRetsCounter - 1) =
            Function.update d.counters bce (d.counters bce - 1) := by
        intro start same
        have here : (start.heap bce).nRetsCounter = d.counters bce := congrFun same bce
        rw [here, same]
      apply before
      simp
    · simp [addTask, getMnAddr, emit, modify, touch, sentBy]

theorem Spends.sends {task : Task} {bce : Nat} (spends : Spends task bce d d') :
    (d.counters bce = 0 ∧ d'.counters = d.counters ∧
        d'.log.countP (sentBy task) - d.log.countP (sentBy task) = 0) ∨
      (d.counters bce ≠ 0 ∧ d'.counters = Function.update d.counters bce (d.counters bce - 1) ∧
        d'.log.countP (sentBy task) - d.log.countP (sentBy task) = 1) := by
  rcases spends with ⟨zero, same, count⟩ | ⟨left, counted, count⟩
  · exact Or.inl ⟨zero, same, by omega⟩
  · exact Or.inr ⟨left, counted, by omega⟩

theorem fire_counters (isMag : conf.mip6Entity = .mag) (taken : d.fire conf env = .ok d')
    (p : Nat) :
    (timerSends d d' p (.fire env) = 0 ∧ d'.counters p = d.counters p) ∨
      (timerSends d d' p (.fire env) = 1 ∧ d.counters p ≠ 0 ∧
        d'.counters p = d.counters p - 1) := by
  have spent : ∀ {bce : Nat} {task : Task} {tq : TQueue TqElem},
      d.tun.tq.runner env.now = some (.bce bce, tq) → tq.task (.bce bce) = some task →
      Spends task bce d d' →
      (timerSends d d' p (.fire env) = 0 ∧ d'.counters p = d.counters p) ∨
        (timerSends d d' p (.fire env) = 1 ∧ d.counters p ≠ 0 ∧
          d'.counters p = d.counters p - 1) := by
    intro bce task tq popped isTask spends
    simp only [timerSends, popped]
    by_cases here : bce = p
    · subst here
      simp only [if_true, isTask]
      rcases spends.sends with ⟨-, same, none_⟩ | ⟨left, counted, one⟩
      · exact Or.inl ⟨none_, congrFun same bce⟩
      · refine Or.inr ⟨one, left, ?_⟩
        rw [counted, Function.update_self]
    · simp only [if_neg here]
      rcases spends.sends with ⟨-, same, -⟩ | ⟨-, counted, -⟩
      · exact Or.inl ⟨trivial, congrFun same p⟩
      · refine Or.inl ⟨trivial, ?_⟩
        rw [counted, Function.update_of_ne (Ne.symm here)]
  simp only [fire] at taken
  cases popped : d.tun.tq.runner env.now with
  | none =>
      rw [popped] at taken
      cases taken
      exact Or.inl ⟨by simp only [timerSends, popped], rfl⟩
  | some pair =>
      obtain ⟨element, tq⟩ := pair
      simp only [popped] at taken
      cases element with
      | tunnel mag =>
          cases taken
          exact Or.inl ⟨by simp only [timerSends, popped], rfl⟩
      | bce bce =>
          simp only at taken
          split at taken
          · rename_i task
            have spends := retransPbu_spends taken
            exact spent popped task spends
          · rename_i task
            have spends := bceExpired_spends isMag taken
            exact spent popped task spends
          · cases taken
            refine Or.inl ⟨?_, rfl⟩
            simp only [timerSends, popped]
            split
            · split
              · exact Nat.sub_self _
              · rfl
            · rfl

end Timers

end Daemon

open Daemon

/-- The gateway, with the messages that the timers of each entry have sent since
its counter was last set; `none` before the entry is linked. -/
structure Counted where
  daemon : Daemon
  sends : Nat → Option Nat

/-- The tally of `p` starts when it is linked and starts again at a reset. -/
def tally (conf : Conf) (c : Counted) (input : MagInput) (next : Daemon) (p : Nat) : Option Nat :=
  if p = c.daemon.top ∧ p ∈ next.entries then some 0
  else (c.sends p).map fun n =>
    if Resets conf c.daemon p input then 0 else n + timerSends c.daemon next p input

def countedStep (conf : Conf) (c : Counted) (input : MagInput) :
    Except (Crash × Daemon) Counted :=
  match c.daemon.magStep conf input with
  | .error crash => .error crash
  | .ok next => .ok ⟨next, tally conf c input next⟩

structure CountedOk (conf : Conf) (c : Counted) : Prop where
  below : ∀ p ∈ c.daemon.entries, p < c.daemon.top
  fresh : ∀ p, c.daemon.top ≤ p → c.daemon.counters p = 0 ∧ c.sends p = none
  bounds : ∀ p, 0 ≤ c.daemon.counters p ∧ c.daemon.counters p ≤ conf.maxMessageRetransmissions
  total : ∀ p n, c.sends p = some n → c.daemon.counters p + n = conf.maxMessageRetransmissions
  tunnels : conf.dynamicTunnelingEnabled = true → Tunnels.Recorded conf c.daemon.tun

theorem countedOk_init {conf : Conf} (natural : 0 ≤ conf.maxMessageRetransmissions)
    {kernel : TunnelEnv} {link : Int} {tun : Tunnels}
    (started : Tunnels.pmipTunnelsInit conf kernel link = .ok tun) (hnp : List MnidHnp) :
    CountedOk conf ⟨init tun hnp, fun _ => none⟩ where
  below := by simp [entries, init]
  fresh := fun _ _ => ⟨rfl, rfl⟩
  bounds := fun _ => ⟨Int.le_refl 0, natural⟩
  total := by simp
  tunnels := fun dynamic => Tunnels.recorded_init dynamic started

theorem CountedOk.counter {conf : Conf} (isMag : conf.mip6Entity = .mag) {c : Counted}
    (ok : CountedOk conf c) {input : MagInput} {next : Daemon}
    (taken : c.daemon.magStep conf input = .ok next) (p : Nat) :
    (p = c.daemon.top ∧ p ∈ next.entries ∧
        next.counters p = conf.maxMessageRetransmissions) ∨
      (¬(p = c.daemon.top ∧ p ∈ next.entries) ∧ Resets conf c.daemon p input ∧
        next.counters p = conf.maxMessageRetransmissions) ∨
      (¬(p = c.daemon.top ∧ p ∈ next.entries) ∧ ¬Resets conf c.daemon p input ∧
        0 ≤ next.counters p ∧
        next.counters p + timerSends c.daemon next p input = c.daemon.counters p) := by
  obtain ⟨natural, -⟩ := ok.bounds p
  have topOutside : p = c.daemon.top → p ∉ c.daemon.entries := by
    intro isTop member
    have lower := ok.below p member
    omega
  cases input with
  | event info env =>
      rcases magFsm_counters p taken with ⟨counter, entries⟩ | ⟨isTop, new⟩
      · have notNew : ¬(p = c.daemon.top ∧ p ∈ next.entries) := fun both =>
          topOutside both.1 (entries both.1 both.2)
        by_cases resets : Resets conf c.daemon p (.event info env)
        · rw [if_pos resets] at counter
          exact Or.inr (Or.inl ⟨notNew, resets, counter⟩)
        · rw [if_neg resets] at counter
          refine Or.inr (Or.inr ⟨notNew, resets, ?_, ?_⟩)
          · rw [counter]
            exact natural
          · simp [timerSends, counter]
      · rcases new with ⟨linked, counter⟩ | ⟨entries, counter⟩
        · exact Or.inl ⟨isTop, linked, counter⟩
        · have unlinked : p ∉ next.entries := entries ▸ topOutside isTop
          have unknown : ¬Resets conf c.daemon p (.event info env) := fun resets =>
            topOutside isTop (cached_some resets.1).1
          have zero := (ok.fresh p (Nat.le_of_eq isTop.symm)).1
          refine Or.inr (Or.inr ⟨fun both => unlinked both.2, unknown, ?_, ?_⟩)
          · omega
          · simp [timerSends, counter, zero]
  | fire env =>
      have notNew : ¬(p = c.daemon.top ∧ p ∈ next.entries) := by
        intro both
        rcases (move_entries (magStep_move isMag taken)).2 with fewer | ⟨-, -, _, _, same, -⟩
        · exact topOutside both.1 (fewer p both.2)
        · cases same
      refine Or.inr (Or.inr ⟨notNew, id, ?_⟩)
      rcases fire_counters isMag taken p with ⟨none_, same⟩ | ⟨one, left, counted⟩
      · rw [none_, same]
        exact ⟨natural, by omega⟩
      · rw [one, counted]
        constructor <;> omega

theorem CountedOk.step {conf : Conf} (isMag : conf.mip6Entity = .mag) (c : Counted)
    (input : MagInput) (c' : Counted) (ok : CountedOk conf c)
    (taken : countedStep conf c input = .ok c') : CountedOk conf c' := by
  simp only [countedStep] at taken
  split at taken
  · cases taken
  · rename_i next steps
    cases taken
    have move := magStep_move isMag steps
    obtain ⟨higher, shape⟩ := move_entries move
    have most := (ok.bounds 0).1.trans (ok.bounds 0).2
    refine ⟨?_, ?_, ?_, ?_, fun dynamic => move_recorded (ok.tunnels dynamic) dynamic move⟩
    · intro p member
      rcases shape with fewer | ⟨top, members, -⟩
      · exact Nat.lt_of_lt_of_le (ok.below p (fewer p member)) higher
      · rcases members p member with isTop | before
        · rw [top, isTop]
          exact Nat.lt_succ_self _
        · exact Nat.lt_of_lt_of_le (ok.below p before) higher
    · intro p above
      obtain ⟨zero, untold⟩ := ok.fresh p (Nat.le_trans higher above)
      have notNew : ¬(p = c.daemon.top ∧ p ∈ next.entries) := by
        intro both
        rcases shape with fewer | ⟨top, -, -⟩
        · have lower := ok.below p (fewer p both.2)
          have isTop := both.1
          omega
        · have isTop := both.1
          change next.top ≤ p at above
          omega
      rcases ok.counter isMag steps p with ⟨isTop, linked, -⟩ | ⟨-, resets, -⟩ | ⟨-, -, natural, sum⟩
      · exact absurd ⟨isTop, linked⟩ notNew
      · cases input with
        | event info env =>
            have lower := ok.below p (cached_some resets.1).1
            exact absurd (Nat.le_trans higher above) (Nat.not_le_of_lt lower)
        | fire env => exact absurd resets id
      · constructor
        · change next.counters p = 0
          omega
        · simp only [tally, if_neg notNew, untold, Option.map_none]
    · intro p
      obtain ⟨low, high⟩ := ok.bounds p
      change 0 ≤ next.counters p ∧ next.counters p ≤ conf.maxMessageRetransmissions
      rcases ok.counter isMag steps p with ⟨-, -, counter⟩ | ⟨-, -, counter⟩ | ⟨-, -, natural, sum⟩
      · omega
      · omega
      · omega
    · intro p n tallied
      have same : (⟨next, tally conf c input next⟩ : Counted).sends p = tally conf c input next p := rfl
      change next.counters p + n = conf.maxMessageRetransmissions
      rw [same] at tallied
      rcases ok.counter isMag steps p with ⟨isTop, linked, counter⟩ | ⟨notNew, resets, counter⟩ |
        ⟨notNew, resets, natural, sum⟩
      · simp only [tally, if_pos (And.intro isTop linked), Option.some.injEq] at tallied
        omega
      · simp only [tally, if_neg notNew, if_pos resets] at tallied
        obtain ⟨before, -, isZero⟩ := Option.map_eq_some_iff.mp tallied
        omega
      · simp only [tally, if_neg notNew, if_neg resets] at tallied
        obtain ⟨before, isBefore, added⟩ := Option.map_eq_some_iff.mp tallied
        have total := ok.total p before isBefore
        omega

theorem CountedOk.deletes {conf : Conf} (isMag : conf.mip6Entity = .mag) {c : Counted}
    (ok : CountedOk conf c) {p : Nat} (spent : c.daemon.counters p = 0) {env : Env}
    (fires : Fires c.daemon env p) :
    ∃ next, c.daemon.magStep conf (.fire env) = .ok next ∧ next.live p = false := by
  obtain ⟨tq, popped, task⟩ := fires
  have zero : (c.daemon.heap p).nRetsCounter = 0 := spent
  rcases task with retransmission | expiry
  · refine ⟨({ c.daemon with tun := { c.daemon.tun with tq := tq } }).pmipBceDelete p, ?_, ?_⟩
    · simp only [magStep, fire, popped, retransmission, pmipTimerRetransPbuHandler, zero, if_true]
    · simp [delete_live]
  · obtain ⟨mid, dereg⟩ := magDereg_succeeds (d := { c.daemon with
      tun := { c.daemon.tun with tq := tq } }) env p fun dynamic =>
        (ok.tunnels dynamic).of_lifetimes rfl fun _ => ⟨rfl, rfl⟩
    refine ⟨mid.pmipBceDelete p, ?_, ?_⟩
    · simp only [magStep, fire, popped, expiry, pmipTimerBceExpiredHandler, isMag, zero, if_true]
      exact bind_eq_ok.mpr ⟨mid, dereg, rfl⟩
    · simp [delete_live]

theorem counted_run {conf : Conf} {inputs : List MagInput} {d final : Daemon}
    (finished : run (magStep conf) d inputs = .ok final) (sends : Nat → Option Nat) :
    ∃ last, run (countedStep conf) ⟨d, sends⟩ inputs = .ok ⟨final, last⟩ := by
  induction inputs generalizing d sends with
  | nil =>
      cases finished
      exact ⟨sends, rfl⟩
  | cons input rest ih =>
      obtain ⟨next, taken, restRun⟩ := run_cons_ok finished
      obtain ⟨last, ends⟩ := ih restRun (tally conf ⟨d, sends⟩ input next)
      exact ⟨last, by simp only [run, countedStep, taken, ends]⟩

/-- In every run every counter stays between zero and its maximum, and the
timers of a linked entry have sent at most that many messages since its counter
was last set; once they have, the next firing deletes the entry. -/
theorem mag_retransmissions_bounded (conf : Conf) (isMag : conf.mip6Entity = .mag)
    (natural : 0 ≤ conf.maxMessageRetransmissions) (kernel : TunnelEnv) (link : Int)
    (tun : Tunnels) (started : Tunnels.pmipTunnelsInit conf kernel link = .ok tun)
    (hnp : List MnidHnp) (inputs : List MagInput) (c : Counted)
    (finished : run (countedStep conf) ⟨init tun hnp, fun _ => none⟩ inputs = .ok c) :
    (∀ p, 0 ≤ (c.daemon.heap p).nRetsCounter ∧
        (c.daemon.heap p).nRetsCounter ≤ conf.maxMessageRetransmissions) ∧
      ∀ p n, c.sends p = some n → (n : Int) ≤ conf.maxMessageRetransmissions ∧
        ((n : Int) = conf.maxMessageRetransmissions → ∀ env, Fires c.daemon env p →
          ∃ next, c.daemon.magStep conf (.fire env) = .ok next ∧ next.live p = false) := by
  have ok : CountedOk conf c := run_invariant
    (fun c input next holds (_ : True) taken => CountedOk.step isMag c input next holds taken)
    (countedOk_init natural started hnp) (meets_always (fun _ _ => trivial) inputs _) finished
  refine ⟨ok.bounds, ?_⟩
  intro p n tallied
  have total := ok.total p n tallied
  have low := (ok.bounds p).1
  refine ⟨by omega, ?_⟩
  intro all env fires
  exact ok.deletes isMag (by omega) fires

/-- A registered node is probed twice, associated again, and the update that
this sends is retransmitted three times. -/
def silentNode : List MagInput :=
  joins 1 0 10 ++ [106, 108].map (fun sec => .fire (Env.ample ⟨sec, 0⟩ 10)) ++
    .event { MsgInfo.zero with
        msgEvent := .hasWLCCP
        mnIid := nodeIid 1
        mnNai := nodeNai 1 } (Env.ample ⟨109, 0⟩ 10) ::
      [111, 113, 115].map fun sec => .fire (Env.ample ⟨sec, 0⟩ 10)

theorem mag_retransmissions_bounded_silent :
    ∃ c, run (countedStep (confDynamic .mag)) ⟨init Tunnels.init twoNodes, fun _ => none⟩
        silentNode = .ok c ∧ c.sends 0 = some 5 ∧
      ∃ next, c.daemon.magStep (confDynamic .mag) (.fire (Env.ample ⟨117, 0⟩ 10)) = .ok next ∧
        next.live 0 = false := by
  refine ⟨_, rfl, by decide +kernel, ?_⟩
  have bounded := mag_retransmissions_bounded (confDynamic .mag) rfl (by decide) ⟨none, false⟩ 0
    Tunnels.init rfl twoNodes silentNode _ rfl
  exact (bounded.2 0 5 (by decide +kernel)).2 rfl _ ⟨_, rfl, Or.inl (by decide +kernel)⟩

end OaiPmip
