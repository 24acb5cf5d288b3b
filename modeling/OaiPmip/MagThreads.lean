import OaiPmip.MagIdentity

/-!
# Concurrent calls of `mag_fsm`

The listeners for ICMP, captured frames, link events and mobility headers run
in threads of their own, and each calls `mag_fsm`.  A call reads the type of the
binding before it takes `fsm_lock`, so it is two steps: the check, and the case
that the type selected.  Between the two any number of other calls and timers
can take their steps.
-/

set_option autoImplicit false

namespace OaiPmip

open OaiPmip.ChainTable OaiPmip.HashChains OaiPmip.HashKeys OaiPmip.Msgs OaiPmip.Runs

/-- A call between its check and its case: the event and the type it read. -/
structure Call where
  info : MsgInfo
  type : BceType

structure Threads where
  daemon : Daemon
  calls : List Call

inductive ThreadInput where
  | check (info : MsgInfo)
  | act (i : Nat) (env : Env)
  | fire (env : Env)

namespace Daemon

/-- The switch of `mag_fsm`. -/
def magSwitch (conf : Conf) (d : Daemon) (env : Env) (info : MsgInfo) : BceType → Outcome
  | .noEntry => d.magNoEntry conf env info
  | .temp => d.magTemp conf env info
  | .pmip => d.magPmip conf env info

end Daemon

namespace Threads

open Daemon

def init (tun : Tunnels) (hnp : List MnidHnp) : Threads := ⟨Daemon.init tun hnp, []⟩

/-- What `mag_fsm` does before it takes the lock. -/
def check (conf : Conf) (t : Threads) (info : MsgInfo) : Threads :=
  if info.msgEvent = .hasPBA ∧ info.dst ≠ conf.magAddressEgress then t
  else
    let (d, type) := t.daemon.pmipCacheExists info.mnNai conf.ourAddress
    ⟨d, t.calls ++ [⟨info, type⟩]⟩

def step (conf : Conf) (t : Threads) : ThreadInput → Except (Crash × Daemon) Threads
  | .check info => .ok (t.check conf info)
  | .act i env =>
      match t.calls[i]? with
      | none => .ok t
      | some call => do
          let d ← t.daemon.magSwitch conf env call.info call.type
          return ⟨d, t.calls.eraseIdx i⟩
  | .fire env => do
      let d ← t.daemon.fire conf env
      return ⟨d, t.calls⟩

/-- A check that is at once followed by its case is a call of `mag_fsm`. -/
theorem magFsm_eq (conf : Conf) (t : Threads) (env : Env) (info : MsgInfo) :
    run (step conf) t [.check info, .act t.calls.length env] =
      (t.daemon.magFsm conf env info).map fun d => ⟨d, t.calls⟩ := by
  by_cases foreign : info.msgEvent = .hasPBA ∧ info.dst ≠ conf.magAddressEgress
  · have missing : t.calls[t.calls.length]? = none := by simp
    simp only [run, step, check, if_pos foreign, missing, magFsm]
    rfl
  · simp only [run, step, check, if_neg foreign, magFsm, pmipCacheExists_eq,
      List.getElem?_concat_length, List.eraseIdx_append_of_length_le (Nat.le_refl _), Nat.sub_self]
    cases t.daemon.cachedType info.mnNai conf.ourAddress with
    | noEntry =>
        dsimp only [magSwitch]
        cases magNoEntry conf _ env info with
        | error crash => rfl
        | ok d => simp [Except.map, bind, Except.bind, pure, Except.pure]
    | temp =>
        dsimp only [magSwitch]
        cases magTemp conf _ env info with
        | error crash => rfl
        | ok d => simp [Except.map, bind, Except.bind, pure, Except.pure]
    | pmip =>
        dsimp only [magSwitch]
        cases magPmip conf _ env info with
        | error crash => rfl
        | ok d => simp [Except.map, bind, Except.bind, pure, Except.pure]

end Threads

namespace Call

open Daemon

def looksUp (conf : Conf) (c : Call) : Option PmipKey :=
  match c.type, c.info.msgEvent with
  | .temp, .hasPBA => some ⟨c.info.mnNai, conf.ourAddress⟩
  | .pmip, .hasRS => some ⟨c.info.mnNai, eui64ToEui48 c.info.mnIid⟩
  | .pmip, .hasPBA | .pmip, .hasWLCCP | .pmip, .hasODTONELinkEvent | .pmip, .hasDEREG
  | .pmip, .hasNA => some ⟨c.info.mnNai, conf.ourAddress⟩
  | _, _ => none

def Registers (conf : Conf) (c : Call) : Prop :=
  c.type = .noEntry ∧ StartsRegistration conf c.info

def Acts (conf : Conf) (c : Call) : Prop := c.Registers conf ∨ (c.looksUp conf).isSome

/-- A case that registers a node finds no entry for it, and any other finds an
entry, of the type that selected the case. -/
def Sound (conf : Conf) (d : Daemon) (c : Call) : Prop :=
  (c.Registers conf → d.cached c.info.mnNai conf.ourAddress = none) ∧
    ∀ k ∈ c.looksUp conf, ∃ bce ∈ d.cached k.mnNai k.magAddress, (d.heap bce).type = c.type

instance (conf : Conf) (c : Call) : Decidable (c.Registers conf) :=
  inferInstanceAs (Decidable (_ ∧ _))

instance (conf : Conf) (c : Call) : Decidable (c.Acts conf) :=
  inferInstanceAs (Decidable (_ ∨ _))

def answer (d : Daemon) (env : Env) (c : Call) : Option Nai :=
  (HnpCache.mnidHnpMap d.hnp env.radius (eui64ToEui48 c.info.mnIid) c.info.mnNai).2.map Prod.snd

def alters (conf : Conf) (d : Daemon) (env : Env) (c : Call) : Option PmipKey :=
  match c.type with
  | .noEntry =>
      if StartsRegistration conf c.info ∧ env.entryAlloc ∧ env.nodeAlloc then
        (c.answer d env).bind fun nai =>
          if d.cached nai conf.ourAddress = none then some ⟨nai, conf.ourAddress⟩ else none
      else none
  | .temp =>
      if c.info.msgEvent = .hasPBA ∧
          ∃ bce ∈ d.cached c.info.mnNai conf.ourAddress, isPbaResponse c.info (d.heap bce) then
        some ⟨c.info.mnNai, conf.ourAddress⟩
      else none
  | .pmip =>
      if c.info.msgEvent = .hasDEREG then some ⟨c.info.mnNai, conf.ourAddress⟩ else none

end Call

namespace Daemon

def OnePerKey (d : Daemon) : Prop := (d.entries.map d.key).Nodup

/-- The last node of the chain, which an addition does not compare, has another
key. -/
def TailFree (d : Daemon) (k : PmipKey) : Prop := ∀ bce ∈ (d.chainOf k).getLast?, d.key bce ≠ k

instance (d : Daemon) (k : PmipKey) : Decidable (d.TailFree k) :=
  inferInstanceAs (Decidable (∀ bce ∈ (d.chainOf k).getLast?, _))

def lapses (conf : Conf) (d : Daemon) (env : Env) : Option Nat :=
  (d.deregisters conf (.fire env)).or (d.exhausts (.fire env))

end Daemon

namespace Threads

open Daemon

def selected (t : Threads) : ThreadInput → Option Call
  | .act i _ => t.calls[i]?
  | _ => none

def Idle (conf : Conf) (calls : List Call) (k : PmipKey) : Prop :=
  ∀ other ∈ calls, other.Acts conf → (⟨other.info.mnNai, conf.ourAddress⟩ : PmipKey) ≠ k

instance (conf : Conf) (calls : List Call) (k : PmipKey) : Decidable (Idle conf calls k) :=
  inferInstanceAs (Decidable (∀ other ∈ calls, _))

/-- A binding is made, completed or removed only while no other call waits to
work on it; a registered node does not solicit, unless its hardware address is
the gateway's own; and the identifier that the map gives a new node is not the
last of its chain. -/
def KeepsTypes (conf : Conf) (t : Threads) : ThreadInput → Prop
  | .check _ => True
  | .act i env => ∀ c ∈ t.calls[i]?,
      (c.type = .pmip → c.info.msgEvent = .hasRS →
        eui64ToEui48 c.info.mnIid = conf.ourAddress) ∧
      (c.Registers conf → env.entryAlloc = true → env.nodeAlloc = true →
        ∀ nai ∈ c.answer t.daemon env, t.daemon.TailFree ⟨nai, conf.ourAddress⟩) ∧
      ∀ k ∈ c.alters conf t.daemon env, Idle conf (t.calls.eraseIdx i) k
  | .fire env => ∀ bce ∈ t.daemon.lapses conf env, Idle conf t.calls (t.daemon.key bce)

instance (conf : Conf) (t : Threads) : (input : ThreadInput) → Decidable (t.KeepsTypes conf input)
  | .check _ => .isTrue trivial
  | .act i _ => inferInstanceAs (Decidable (∀ c ∈ t.calls[i]?, _ ∧ _ ∧ _))
  | .fire env => inferInstanceAs (Decidable (∀ bce ∈ t.daemon.lapses conf env, _))

end Threads

namespace Daemon

theorem magSwitch_looksUp {conf : Conf} {c : Call} {k : PmipKey} (looks : c.looksUp conf = some k)
    (d : Daemon) (env : Env) :
    ∃ rest, d.magSwitch conf env c.info c.type = d.getEntry k.mnNai k.magAddress >>= rest := by
  obtain ⟨info, type⟩ := c
  simp only [Call.looksUp] at looks
  split at looks
  · rename_i event
    cases looks
    simp only [magSwitch, magTemp, event]
    exact ⟨_, rfl⟩
  iterate 6
    rename_i event
    cases looks
    simp only [magSwitch, magPmip, event]
    exact ⟨_, rfl⟩
  cases looks

/-- The lookup of the case that an event selects returns the entry whose type
selected the case. -/
def BranchAgrees (conf : Conf) (d : Daemon) (info : MsgInfo) : Prop :=
  IsForMe conf info →
    ∀ k ∈ Call.looksUp conf ⟨info, d.cachedType info.mnNai conf.ourAddress⟩,
      ∃ bce, d.cached info.mnNai conf.ourAddress = some bce ∧
        d.cached k.mnNai k.magAddress = some bce

theorem cached_of_typed {d : Daemon} {mnNai : Nai} {magAddr : In6Addr}
    (typed : d.cachedType mnNai magAddr ≠ .noEntry) : ∃ bce, d.cached mnNai magAddr = some bce := by
  cases found : d.cached mnNai magAddr with
  | some bce => exact ⟨bce, rfl⟩
  | none => exact absurd (by simp [cachedType, found]) typed

/-- The case finds its entry unless a registered node solicits: the key of that
lookup has the node's hardware address for the gateway's own. -/
theorem branch_agrees_iff (conf : Conf) (d : Daemon) (info : MsgInfo) :
    BranchAgrees conf d info ↔
      (d.cachedType info.mnNai conf.ourAddress = .pmip → info.msgEvent = .hasRS →
        eui64ToEui48 info.mnIid = conf.ourAddress) := by
  constructor
  · intro agrees isPmip event
    have isForMe : IsForMe conf info := by
      intro foreign
      rw [event] at foreign
      exact absurd foreign.1 (by simp)
    obtain ⟨bce, found, again⟩ := agrees isForMe ⟨info.mnNai, eui64ToEui48 info.mnIid⟩
      (by simp [Call.looksUp, isPmip, event])
    have key := (cached_some again).2.symm.trans (cached_some found).2
    exact congrArg PmipKey.magAddress key
  · intro own _ k looks
    have typed : d.cachedType info.mnNai conf.ourAddress ≠ .noEntry := by
      intro missing
      simp [Call.looksUp, missing] at looks
    obtain ⟨bce, found⟩ := cached_of_typed typed
    refine ⟨bce, found, ?_⟩
    simp only [Call.looksUp] at looks
    split at looks
    · cases looks
      exact found
    · rename_i isPmip event
      cases looks
      rw [own isPmip event]
      exact found
    iterate 5
      cases looks
      exact found
    cases looks

def namelessMac : In6Addr := macAddress48 ⟨[0, 0, 0, 0, 0, 7], rfl⟩

def namelessNode : MnidHnp := ⟨in6addrAny, namelessMac, Octets.zero 63⟩

def namelessSolicitation : MsgInfo :=
  icmpRsParse (linkLocalAddr (eui48ToEui64 namelessMac)) in6addrAny 0

def namelessAck : MsgInfo :=
  { MsgInfo.zero with
    msgEvent := .hasPBA
    dst := in6addrLoopback
    mnIid := eui48ToEui64 namelessMac
    timestamp := timestampOf (some (100, 0))
    lifetime := ⟨40, 0⟩ }

/-- The node solicits again after it was registered. -/
theorem registered_node_solicits :
    ∃ d, run (magStep (confDefault .mag)) (init Tunnels.init [namelessNode])
        [.event namelessSolicitation (Env.ample ⟨100, 0⟩ 10),
          .event namelessAck (Env.ample ⟨101, 0⟩ 10)] = .ok d ∧
      ¬ BranchAgrees (confDefault .mag) d namelessSolicitation := by
  refine ⟨_, rfl, ?_⟩
  rw [branch_agrees_iff]
  decide

end Daemon

/-! ## Bindings that a step leaves alone -/

namespace Daemon

structure TypedOk (d : Daemon) : Prop extends HashOk d where
  types : ∀ bce ∈ d.entries, (d.heap bce).type ≠ .noEntry

/-- The cache stays in order, and no binding but that of one key changes its
type. -/
structure KeepsOthers (altered : Option PmipKey) (d d' : Daemon) : Prop where
  ok : TypedOk d'
  others : ∀ mnNai magAddr, altered ≠ some ⟨mnNai, magAddr⟩ →
    d'.cachedType mnNai magAddr = d.cachedType mnNai magAddr

theorem HashOk.cachedType_congr {d d' : Daemon} (ok : HashOk d) (ok' : HashOk d') {mnNai : Nai}
    {magAddr : In6Addr}
    (same : ∀ p, p ∈ d'.entries ∧ d'.key p = ⟨mnNai, magAddr⟩ ↔
      p ∈ d.entries ∧ d.key p = ⟨mnNai, magAddr⟩)
    (types : ∀ p ∈ d.entries, d.key p = ⟨mnNai, magAddr⟩ → (d'.heap p).type = (d.heap p).type) :
    d'.cachedType mnNai magAddr = d.cachedType mnNai magAddr := by
  simp only [cachedType]
  cases found : d.cached mnNai magAddr with
  | some p =>
      have here := cached_some found
      have there := (same p).mpr here
      rw [ok'.cached_of_key there.1 there.2]
      exact types p here.1 here.2
  | none =>
      cases found' : d'.cached mnNai magAddr with
      | none => rfl
      | some p =>
          have here := (same p).mp (cached_some found')
          exact absurd here.2 (ok.cached_none found p here.1)

namespace TypedOk

variable {d d' : Daemon}

theorem isLive (ok : TypedOk d) {bce : Nat} (known : d.Known bce) : d.live bce = true := by
  rcases known with member | queued
  · exact ok.live bce member
  · exact ok.queued bce queued

theorem worked (ok : TypedOk d) {bce : Nat} (isLive : d.live bce = true)
    (frame : Frame PmipEntry.binding bce d d') (altered : Option PmipKey) :
    KeepsOthers altered d d' := by
  have hash := ok.toHashOk.frame_owner isLive frame.owner
  have types : ∀ p, (d'.heap p).type = (d.heap p).type := by
    intro p
    by_cases here : p = bce
    · rw [here]
      exact frame.type
    · rw [frame.others p here]
  refine ⟨{ hash with types := ?_ }, ?_⟩
  · intro p member
    rw [frame.entries] at member
    rw [types p]
    exact ok.types p member
  · intro mnNai magAddr _
    apply ok.toHashOk.cachedType_congr hash
    · intro p
      rw [frame.entries, frame.owner.key]
    · exact fun p _ _ => types p

theorem retyped (ok : TypedOk d) {bce : Nat} (isLive : d.live bce = true)
    (frame : Frame PmipEntry.owner bce d d') (typed : (d'.heap bce).type ≠ .noEntry) :
    KeepsOthers (some (d.key bce)) d d' := by
  have hash := ok.toHashOk.frame_owner isLive frame
  refine ⟨{ hash with types := ?_ }, ?_⟩
  · intro p member
    rw [frame.entries] at member
    by_cases here : p = bce
    · rw [here]
      exact typed
    · rw [frame.others p here]
      exact ok.types p member
  · intro mnNai magAddr different
    apply ok.toHashOk.cachedType_congr hash
    · intro p
      rw [frame.entries, frame.key]
    · intro p _ isKey
      have other : p ≠ bce := by
        intro same
        subst same
        exact different (congrArg some isKey)
      rw [frame.others p other]

theorem deleted (ok : TypedOk d) {bce : Nat} (isLive : d.live bce = true)
    (frame : Frame PmipEntry.owner bce d d') :
    KeepsOthers (some (d.key bce)) d (d'.pmipBceDelete bce) := by
  have hash := ok.toHashOk.frame_owner isLive frame
  have gone := hash.delete bce
  have key : d'.key = d.key := frame.key
  have others : ∀ p ≠ bce, (d'.pmipBceDelete bce).heap p = d.heap p := by
    intro p different
    rw [delete_heap, frame.others p different]
  refine ⟨{ gone with types := ?_ }, ?_⟩
  · intro p member
    have different : p ≠ bce := by
      intro same
      subst same
      exact hash.delete_notMem member
    rw [others p different]
    apply ok.types
    rw [← frame.entries]
    exact delete_entries_subset d' bce p member
  · intro mnNai magAddr different
    have unlike : ∀ p, d.key p = ⟨mnNai, magAddr⟩ → p ≠ bce := by
      rintro p isKey rfl
      exact different (congrArg some isKey)
    apply ok.toHashOk.cachedType_congr gone
    · intro p
      rw [delete_key, key]
      constructor
      · intro given
        obtain ⟨member, isKey⟩ := given
        have before := delete_entries_subset d' bce p member
        rw [frame.entries] at before
        exact ⟨before, isKey⟩
      · intro given
        obtain ⟨member, isKey⟩ := given
        refine ⟨?_, isKey⟩
        have other : d'.key p ≠ d'.key bce := by
          rw [key, isKey]
          exact fun same => different (congrArg some same.symm)
        rw [← frame.entries] at member
        have bucket := hash.placed
        rw [entries, delete_hash, toList_erase bucket]
        exact (List.mem_eraseP_of_neg (by simpa using other)).mpr member
    · intro p _ isKey
      rw [others p (unlike p isKey)]

theorem registering_refused (ok : TypedOk d) {conf : Conf} {env : Env} {info : MsgInfo}
    {map : List MnidHnp} {pfx : In6Addr} {nai : Nai} {found : Nat}
    (known : d.cached nai conf.ourAddress = some found)
    (tail : d.TailFree ⟨nai, conf.ourAddress⟩) :
    ((d.registering conf env info map pfx nai).pmipCacheAdd conf env d.top).hash = d.hash := by
  have frame := frame_registering conf d env info map pfx nai
  have added := pmipCacheAdd_added conf (d.registering conf env info map pfx nai) env d.top
  have isKey := registering_key conf d env info map pfx nai
  have sameHash : (d.registering conf env info map pfx nai).hash = d.hash := frame.hash
  obtain ⟨member, matched⟩ := cached_some known
  have inChain : found ∈ d.chainOf ⟨nai, conf.ourAddress⟩ := List.mem_of_find?_eq_some known
  have early : found ∈ (d.chainOf ⟨nai, conf.ourAddress⟩).dropLast := by
    rcases List.eq_nil_or_concat' (d.chainOf ⟨nai, conf.ourAddress⟩) with empty | ⟨front, last, isChain⟩
    · rw [empty] at inChain
      cases inChain
    · rw [isChain] at inChain ⊢
      rw [List.dropLast_concat]
      rcases List.mem_append.mp inChain with before | here
      · exact before
      · obtain rfl := List.mem_singleton.mp here
        exact absurd matched (tail found (by simp [isChain]))
  have stillKey : (d.registering conf env info map pfx nai).key found = ⟨nai, conf.ourAddress⟩ := by
    have different : found ≠ d.top := fun same => ok.top_notMem (same ▸ member)
    rw [← matched]
    simp only [key, frame.others found different, allocated, Function.update_of_ne different]
  rw [added.hash, sameHash]
  simp only [tableAdd]
  split
  · rw [if_pos]
    rw [isKey]
    exact List.mem_map.mpr ⟨found, early, stillKey⟩
  · rfl

section Registered
variable {conf : Conf} {env : Env} (info : MsgInfo) (map : List MnidHnp) (pfx : In6Addr)
  {nai : Nai}

theorem registered_others (ok : TypedOk d) :
    ∀ p ∈ d.entries, ((d.registering conf env info map pfx nai).pmipCacheAdd conf env
      d.top).heap p = d.heap p := fun _ member =>
  registered_heap conf d env info map pfx nai fun here => ok.top_notMem (here ▸ member)

theorem registered_linked (ok : TypedOk d) (memory : env.nodeAlloc = true)
    (free : d.cached nai conf.ourAddress = none) :
    KeepsOthers (some ⟨nai, conf.ourAddress⟩) d
      ((d.registering conf env info map pfx nai).pmipCacheAdd conf env d.top) := by
  have added := pmipCacheAdd_added conf (d.registering conf env info map pfx nai) env d.top
  have others := @registered_others d conf env info map pfx nai ok
  have hash := HashOk.registering conf env info map pfx ok.toHashOk fun _ => free
  have joined := registered_perm conf env info map pfx ok.toHashOk free memory
  have topKey : ((d.registering conf env info map pfx nai).pmipCacheAdd conf env d.top).key d.top =
      ⟨nai, conf.ourAddress⟩ := by
    rw [added.key]
    exact registering_key conf d env info map pfx nai
  refine ⟨{ hash with types := ?_ }, ?_⟩
  · intro p member
    rcases List.mem_cons.mp (joined.mem_iff.mp member) with rfl | before
    · rw [registered_type]
      simp
    · rw [others p before]
      exact ok.types p before
  · intro mnNai magAddr different
    apply ok.toHashOk.cachedType_congr hash
    · intro p
      rw [joined.mem_iff, List.mem_cons]
      constructor
      · intro given
        rcases given with ⟨rfl | member, matched⟩
        · exact absurd (congrArg some (topKey.symm.trans matched)) different
        · exact ⟨member, (congrArg PmipEntry.key (others p member)).symm.trans matched⟩
      · intro given
        obtain ⟨member, matched⟩ := given
        exact ⟨Or.inr member, (congrArg PmipEntry.key (others p member)).trans matched⟩
    · exact fun p member _ => congrArg PmipEntry.type (others p member)

theorem registered_unlinked (ok : TypedOk d)
    (tail : env.nodeAlloc = true → d.TailFree ⟨nai, conf.ourAddress⟩)
    (refused : ¬(env.nodeAlloc = true ∧ d.cached nai conf.ourAddress = none)) :
    KeepsOthers none d
      ((d.registering conf env info map pfx nai).pmipCacheAdd conf env d.top) := by
  have frame := frame_registering conf d env info map pfx nai
  have added := pmipCacheAdd_added conf (d.registering conf env info map pfx nai) env d.top
  have others := @registered_others d conf env info map pfx nai ok
  have same : ((d.registering conf env info map pfx nai).pmipCacheAdd conf env d.top).hash =
      d.hash := by
    cases memory : env.nodeAlloc with
    | false =>
        rw [added.hash, memory]
        exact frame.hash
    | true =>
        cases known : d.cached nai conf.ourAddress with
        | none => exact absurd ⟨memory, known⟩ refused
        | some found => exact ok.registering_refused known (tail memory)
  have entriesSame : ((d.registering conf env info map pfx nai).pmipCacheAdd conf env
      d.top).entries = d.entries := by rw [entries, same, entries]
  have blank : HashOk { d.allocated .temp with hnp := map } :=
    { ok.toHashOk.allocated .temp with }
  have isLive : (d.allocated .temp).live d.top = true := by simp [Daemon.allocated]
  have ready : HashOk (d.registering conf env info map pfx nai) :=
    blank.frame isLive (fun member => absurd member ok.top_notMem) frame
  have hash := ready.unlinked (frame.live ▸ isLive) added (same.trans frame.hash.symm)
  refine ⟨{ hash with types := ?_ }, ?_⟩
  · intro p member
    rw [entriesSame] at member
    rw [others p member]
    exact ok.types p member
  · intro mnNai magAddr _
    apply ok.toHashOk.cachedType_congr hash
    · intro p
      rw [entriesSame]
      apply and_congr_right
      intro member
      rw [show Daemon.key _ p = d.key p from congrArg PmipEntry.key (others p member)]
    · exact fun p member _ => congrArg PmipEntry.type (others p member)

theorem registered (ok : TypedOk d)
    (tail : env.nodeAlloc = true → d.TailFree ⟨nai, conf.ourAddress⟩) :
    KeepsOthers
      (if env.nodeAlloc = true ∧ d.cached nai conf.ourAddress = none then
        some ⟨nai, conf.ourAddress⟩ else none) d
      ((d.registering conf env info map pfx nai).pmipCacheAdd conf env d.top) := by
  split
  · rename_i links
    exact registered_linked info map pfx ok links.1 links.2
  · rename_i refused
    exact registered_unlinked info map pfx ok tail refused

end Registered

theorem unchanged (ok : TypedOk d) (used : List Nat) (altered : Option PmipKey) :
    KeepsOthers altered d (d.touch used) :=
  ⟨{ ok with }, fun _ _ _ => rfl⟩

theorem leaked (ok : TypedOk d) (used : List Nat) (altered : Option PmipKey) :
    KeepsOthers altered d ((d.touch used).allocated .temp) := by
  have hash : HashOk ((d.touch used).allocated .temp) :=
    (ok.unchanged used altered).ok.toHashOk.allocated .temp
  have others : ∀ p ∈ d.entries, ((d.touch used).allocated .temp).heap p = d.heap p := by
    intro p member
    have different : p ≠ d.top := fun here => ok.top_notMem (here ▸ member)
    simp only [allocated, touch, Function.update_of_ne different]
  refine ⟨{ hash with types := ?_ }, ?_⟩
  · intro p member
    rw [others p member]
    exact ok.types p member
  · intro mnNai magAddr _
    apply ok.toHashOk.cachedType_congr hash
    · intro p
      constructor
      · intro given
        obtain ⟨member, matched⟩ := given
        exact ⟨member, (congrArg PmipEntry.key (others p member)).symm.trans matched⟩
      · intro given
        obtain ⟨member, matched⟩ := given
        exact ⟨member, (congrArg PmipEntry.key (others p member)).trans matched⟩
    · exact fun p member _ => congrArg PmipEntry.type (others p member)

theorem tunnelExpired (ok : TypedOk d) (mag : Fin pmipMaxMags) (altered : Option PmipKey) :
    KeepsOthers altered d { d with
      tun := { d.tun with tq := d.tun.tq.delTask (.tunnel mag) }.pmipTimerTunnelExpiredHandler
        mag } := by
  refine ⟨{ ok with queued := ?_ }, fun _ _ _ => rfl⟩
  intro bce remains
  exact ok.queued bce ((TQueue.mem_delTask _ _ _).mp remains).1

theorem moved (ok : TypedOk d) {conf : Conf} {input : MagInput} {altered : Option PmipKey}
    (move : MagMove conf d input d')
    (registers : ∀ info env used map pfx nai, input = .event info env →
      d.cachedType info.mnNai conf.ourAddress = .noEntry → StartsRegistration conf info →
      HnpCache.mnidHnpMap d.hnp env.radius (eui64ToEui48 info.mnIid) info.mnNai =
        (map, some (pfx, nai)) →
      KeepsOthers altered d
        (((d.touch used).registering conf env info map pfx nai).pmipCacheAdd conf env d.top))
    (attaches : ∀ info env bce, input = .event info env → info.msgEvent = .hasPBA →
      d.cached info.mnNai conf.ourAddress = some bce → (d.heap bce).type = .temp →
      altered = some (d.key bce))
    (detaches : ∀ bce, d.deregisters conf input = some bce → altered = some (d.key bce))
    (drops : ∀ bce, d.exhausts input = some bce → altered = some (d.key bce)) :
    KeepsOthers altered d d' := by
  cases move with
  | looked used => exact ok.unchanged used altered
  | leaked used => exact ok.leaked used altered
  | registered used missing starts answer =>
      exact registers _ _ used _ _ _ rfl missing starts answer
  | worked known work => exact ok.worked (ok.isLive known) work.frame altered
  | @attached info env bce start _ event found wasTemp work ended =>
      rw [attaches info env bce rfl event found wasTemp]
      have whole := work.frame.owner.trans
        ((frame_magEndRegistration conf start env bce info.iif).of_ok ended)
      apply ok.retyped (ok.live bce (cached_some found).1) whole
      rw [magEndRegistration_type ended]
      simp
  | @detached _ bce _ _ known asked work dereg =>
      rw [detaches bce asked]
      exact ok.deleted (ok.isLive known)
        (work.frame.owner.trans ((frame_magDereg conf _ _ _ true).of_ok dereg))
  | @dropped _ bce _ known spent work =>
      rw [drops bce spent]
      exact ok.deleted (ok.isLive known) work.frame.owner
  | @tunnelExpired _ mag queued => exact ok.tunnelExpired mag altered

end TypedOk

theorem magRegister_unallocated {conf : Conf} {d d' : Daemon} {env : Env} {info : MsgInfo}
    (full : env.entryAlloc = false) (taken : d.magRegister conf env info = .ok d') : d' = d := by
  simp only [magRegister] at taken
  rw [pmipCacheAlloc_eq] at taken
  cases answer : HnpCache.mnidHnpMap d.hnp env.radius (eui64ToEui48 info.mnIid) info.mnNai with
  | mk map result =>
      simp only [full, Bool.false_eq_true, if_false, answer] at taken
      cases result with
      | some found => cases taken
      | none =>
          cases taken
          have same : map = d.hnp := HnpCache.map_of_none answer
          rw [same]

theorem magSwitch_idle {conf : Conf} {d d' : Daemon} {env : Env} {c : Call}
    (idle : ¬ c.Acts conf) (taken : d.magSwitch conf env c.info c.type = .ok d') : d' = d := by
  obtain ⟨info, type⟩ := c
  simp only [Call.Acts, Call.Registers, not_or] at idle
  obtain ⟨registers, looks⟩ := idle
  cases type with
  | noEntry =>
      simp only [magSwitch, magNoEntry] at taken
      split at taken
      · rename_i ingress
        have other : ¬ (info.msgEvent = .hasRS ∨ info.msgEvent = .hasWLCCP ∨
            info.msgEvent = .hasODTONELinkEvent) := fun event => registers ⟨rfl, ingress, event⟩
        split at taken
        · rename_i event
          exact absurd (Or.inl event) other
        · rename_i event
          exact absurd (Or.inr (Or.inl event)) other
        · rename_i event
          exact absurd (Or.inr (Or.inr event)) other
        · cases taken
          rfl
      · cases taken
        rfl
  | temp =>
      simp only [magSwitch, magTemp] at taken
      split at taken
      · rename_i event
        exact absurd (by simp [Call.looksUp, event]) looks
      · cases taken
        rfl
  | pmip =>
      simp only [magSwitch, magPmip] at taken
      split at taken
      iterate 6
        rename_i event
        exact absurd (by simp [Call.looksUp, event]) looks
      cases taken
      rfl

section Cases
variable {conf : Conf} {d d' : Daemon} {env : Env} {info : MsgInfo}

theorem magNoEntry_keeps (ok : TypedOk d) (starts : StartsRegistration conf info)
    (missing : d.cachedType info.mnNai conf.ourAddress = .noEntry)
    (tail : env.entryAlloc = true → env.nodeAlloc = true →
      ∀ nai ∈ Call.answer d env ⟨info, .noEntry⟩, d.TailFree ⟨nai, conf.ourAddress⟩)
    (taken : d.magNoEntry conf env info = .ok d') :
    KeepsOthers (Call.alters conf d env ⟨info, .noEntry⟩) d d' := by
  cases memory : env.entryAlloc with
  | false =>
      have registers : d.magRegister conf env info = .ok d' := by
        obtain ⟨ingress, rs | wlccp | link⟩ := starts
        · simpa only [magNoEntry, ingress, rs, if_true] using taken
        · simpa only [magNoEntry, ingress, wlccp, if_true] using taken
        · simpa only [magNoEntry, ingress, link, if_true] using taken
      rw [magRegister_unallocated memory registers]
      exact ok.unchanged [] _
  | true =>
      have taken : (d.touch []).magNoEntry conf env info = .ok d' := taken
      apply ok.moved (magNoEntry_move missing taken)
      · intro info' env' used map pfx nai isInput _ _ answer
        cases isInput
        have answers : Call.answer d env ⟨info, .noEntry⟩ = some nai := by
          simp only [Call.answer, answer, Option.map_some]
        have isAltered : Call.alters conf d env ⟨info, .noEntry⟩ =
            if env.nodeAlloc = true ∧ d.cached nai conf.ourAddress = none then
              some ⟨nai, conf.ourAddress⟩ else none := by
          simp only [Call.alters, starts, memory, true_and, answers, Option.bind_some]
          cases env.nodeAlloc with
          | false => simp
          | true => simp
        have looked : TypedOk (d.touch used) := (ok.unchanged used none).ok
        have kept := looked.registered info map pfx fun linked =>
          tail memory linked nai answers
        rw [isAltered]
        exact ⟨kept.ok, kept.others⟩
      · intro info' env' bce isInput event
        cases isInput
        obtain ⟨_, other⟩ := starts
        rw [event] at other
        simp at other
      · intro bce asked
        simp only [deregisters, missing] at asked
        simp at asked
      · intro bce spent
        cases spent

theorem magTemp_keeps (ok : TypedOk d) (isTemp : d.cachedType info.mnNai conf.ourAddress = .temp)
    (event : info.msgEvent = .hasPBA) (taken : d.magTemp conf env info = .ok d') :
    KeepsOthers (Call.alters conf d env ⟨info, .temp⟩) d d' := by
  cases found : d.cached info.mnNai conf.ourAddress with
  | none =>
      simp only [cachedType, found] at isTemp
      cases isTemp
  | some bce =>
      by_cases answers : isPbaResponse info (d.heap bce) = true
      · have isKey := (cached_some found).2
        have isAltered : Call.alters conf d env ⟨info, .temp⟩ = some (d.key bce) := by
          simp only [Call.alters, event, true_and, found, isKey]
          rw [if_pos ⟨bce, rfl, answers⟩]
        rw [isAltered]
        apply ok.moved (magTemp_move (Or.inl rfl) isTemp taken)
        · intro info' env' used map pfx nai isInput missing
          cases isInput
          rw [isTemp] at missing
          cases missing
        · intro info' env' other isInput _ found' _
          cases isInput
          rw [found] at found'
          cases found'
          rfl
        · intro other asked
          simp only [deregisters, event] at asked
          simp at asked
        · intro other spent
          cases spent
      · -- an acknowledgement of another update is dropped
        simp only [magTemp, event] at taken
        obtain ⟨⟨start, other⟩, got, taken⟩ := bind_eq_ok.mp taken
        obtain ⟨found', rfl⟩ := getEntry_ok got
        rw [found] at found'
        cases found'
        have dropped : isPbaResponse info ((d.touch (d.walk ⟨info.mnNai, conf.ourAddress⟩
          (d.chainOf ⟨info.mnNai, conf.ourAddress⟩))).heap bce) = false := Bool.eq_false_iff.mpr answers
        simp only [dropped, Bool.false_eq_true, if_false] at taken
        cases taken
        exact ok.unchanged _ _

theorem magPmip_keeps (ok : TypedOk d) (isPmip : d.cachedType info.mnNai conf.ourAddress = .pmip)
    (taken : d.magPmip conf env info = .ok d') :
    KeepsOthers (Call.alters conf d env ⟨info, .pmip⟩) d d' := by
  apply ok.moved (magPmip_move (Or.inl rfl) isPmip taken)
  · intro info' env' used map pfx nai isInput missing
    cases isInput
    rw [isPmip] at missing
    cases missing
  · intro info' env' bce isInput _ found wasTemp
    cases isInput
    rw [cachedType_some isPmip found] at wasTemp
    cases wasTemp
  · intro bce asked
    simp only [deregisters, isPmip, and_true] at asked
    split at asked
    · rename_i event
      simp only [Call.alters, event, if_true, (cached_some asked).2]
    · cases asked
  · intro bce spent
    cases spent

theorem magSwitch_keeps (ok : TypedOk d) {c : Call}
    (current : c.Acts conf → d.cachedType c.info.mnNai conf.ourAddress = c.type)
    (tail : c.Registers conf → env.entryAlloc = true → env.nodeAlloc = true →
      ∀ nai ∈ c.answer d env, d.TailFree ⟨nai, conf.ourAddress⟩)
    (taken : d.magSwitch conf env c.info c.type = .ok d') :
    KeepsOthers (c.alters conf d env) d d' := by
  by_cases acts : c.Acts conf
  · obtain ⟨info, type⟩ := c
    have isType := current acts
    cases type with
    | noEntry =>
        rcases acts with ⟨_, starts⟩ | looks
        · exact magNoEntry_keeps ok starts isType (tail ⟨rfl, starts⟩) taken
        · simp [Call.looksUp] at looks
    | temp =>
        rcases acts with ⟨wrong, _⟩ | looks
        · cases wrong
        · have event : info.msgEvent = .hasPBA := by
            by_contra other
            simp only [Call.looksUp] at looks
            split at looks
            · rename_i event
              exact other event
            all_goals simp_all
          exact magTemp_keeps ok isType event taken
    | pmip => exact magPmip_keeps ok isType taken
  · rw [magSwitch_idle acts taken]
    exact ok.unchanged [] _

theorem fire_keeps (isMag : conf.mip6Entity = .mag) (ok : TypedOk d)
    (taken : d.fire conf env = .ok d') :
    KeepsOthers ((d.lapses conf env).map d.key) d d' := by
  apply ok.moved (fire_move isMag taken)
  · intro info env' used map pfx nai isInput
    cases isInput
  · intro info env' bce isInput
    cases isInput
  · intro bce asked
    simp only [lapses, asked, Option.some_or, Option.map_some]
  · intro bce spent
    have kept : d.deregisters conf (.fire env) = none := by
      simp only [exhausts] at spent
      simp only [deregisters]
      split at spent
      · split at spent
        · rename_i isRetrans
          simp [isRetrans.1]
        · cases spent
      · cases spent
    simp only [lapses, kept, spent, Option.none_or, Option.map_some]

end Cases

end Daemon

/-! ## Interleavings -/

/-- Every waiting call that will act has read the type that its binding has. -/
structure ThreadsOk (conf : Conf) (t : Threads) : Prop where
  typed : t.daemon.TypedOk
  current : ∀ c ∈ t.calls, c.Acts conf →
    t.daemon.cachedType c.info.mnNai conf.ourAddress = c.type

namespace ThreadsOk

open Daemon

variable {conf : Conf} {t t' : Threads}

theorem init (conf : Conf) (tun : Tunnels) (hnp : List MnidHnp)
    (unarmed : ∀ bce, .bce bce ∉ tun.tq.list) : ThreadsOk conf (Threads.init tun hnp) where
  typed := {
    hashOk_init tun hnp unarmed with
    types := fun bce member => by simp [Threads.init, entries, Daemon.init] at member }
  current := fun c member => by simp [Threads.init] at member

theorem after (ok : ThreadsOk conf t) {d : Daemon} {calls : List Call} {altered : Option PmipKey}
    (fewer : ∀ c ∈ calls, c ∈ t.calls) (keeps : KeepsOthers altered t.daemon d)
    (idle : ∀ k ∈ altered, Threads.Idle conf calls k) : ThreadsOk conf ⟨d, calls⟩ where
  typed := keeps.ok
  current := by
    intro c member acts
    have other : altered ≠ some ⟨c.info.mnNai, conf.ourAddress⟩ := fun same =>
      idle _ same c member acts rfl
    exact (keeps.others _ _ other).trans (ok.current c (fewer c member) acts)

theorem check (ok : ThreadsOk conf t) (info : MsgInfo) : ThreadsOk conf (t.check conf info) := by
  simp only [Threads.check]
  split
  · exact ok
  · rw [ok.typed.toHashOk.exists_eq]
    refine ⟨ok.typed, ?_⟩
    intro c member acts
    rcases List.mem_append.mp member with before | new
    · exact ok.current c before acts
    · rw [List.mem_singleton.mp new]

theorem step (isMag : conf.mip6Entity = .mag) (ok : ThreadsOk conf t) {input : ThreadInput}
    (keeps : t.KeepsTypes conf input) (taken : t.step conf input = .ok t') : ThreadsOk conf t' := by
  cases input with
  | check info =>
      cases taken
      exact ok.check info
  | act i env =>
      simp only [Threads.step] at taken
      cases waits : t.calls[i]? with
      | none =>
          rw [waits] at taken
          cases taken
          exact ok
      | some c =>
          rw [waits] at taken
          obtain ⟨d, switched, taken⟩ := bind_eq_ok.mp taken
          cases taken
          obtain ⟨_, tail, idle⟩ := keeps c waits
          have member := List.mem_of_getElem? waits
          exact ok.after (fun c => List.mem_of_mem_eraseIdx)
            (magSwitch_keeps ok.typed (ok.current c member) tail switched) idle
  | fire env =>
      simp only [Threads.step] at taken
      obtain ⟨d, fired, taken⟩ := bind_eq_ok.mp taken
      cases taken
      apply ok.after (fun _ => id) (fire_keeps isMag ok.typed fired)
      intro k altered
      obtain ⟨bce, lapsed, rfl⟩ := Option.map_eq_some_iff.mp altered
      exact keeps bce lapsed

theorem sound (ok : ThreadsOk conf t) {c : Call} (member : c ∈ t.calls)
    (solicits : c.type = .pmip → c.info.msgEvent = .hasRS →
      eui64ToEui48 c.info.mnIid = conf.ourAddress) : c.Sound conf t.daemon := by
  constructor
  · intro registers
    have missing := ok.current c member (Or.inl registers)
    rw [registers.1, cachedType] at missing
    cases found : t.daemon.cached c.info.mnNai conf.ourAddress with
    | none => rfl
    | some bce =>
        rw [found] at missing
        exact absurd missing (ok.typed.types bce (cached_some found).1)
  · intro k looks
    have isType := ok.current c member (Or.inr (Option.isSome_of_mem looks))
    have isKey : k = ⟨c.info.mnNai, conf.ourAddress⟩ := by
      simp only [Call.looksUp] at looks
      split at looks
      · cases looks
        rfl
      · rename_i isPmip event
        cases looks
        rw [solicits isPmip event]
      iterate 5
        cases looks
        rfl
      cases looks
    have typed : c.type ≠ .noEntry := by
      intro none
      simp only [Call.looksUp] at looks
      simp [none] at looks
    subst isKey
    cases found : t.daemon.cached c.info.mnNai conf.ourAddress with
    | none =>
        rw [cachedType, found] at isType
        exact absurd isType.symm typed
    | some bce => exact ⟨bce, rfl, cachedType_some isType found⟩

end ThreadsOk

namespace Threads

open Daemon

/-- In every interleaving of checks, cases and timers whose steps meet the
condition, no key has two entries, and every case finds the binding that
selected it. -/
theorem cases_find_their_type (conf : Conf) (isMag : conf.mip6Entity = .mag) (tun : Tunnels)
    (unarmed : ∀ bce, .bce bce ∉ tun.tq.list) (hnp : List MnidHnp) (inputs : List ThreadInput)
    (meets : Meets (step conf) (KeepsTypes conf) (init tun hnp) inputs) :
    Meets (step conf)
        (fun t input => t.daemon.OnePerKey ∧ ∀ c ∈ t.selected input, c.Sound conf t.daemon)
        (init tun hnp) inputs ∧
      ∀ final, run (step conf) (init tun hnp) inputs = .ok final → final.daemon.OnePerKey := by
  have keeps : ∀ (t : Threads) (input : ThreadInput) (t' : Threads), ThreadsOk conf t →
      t.KeepsTypes conf input → t.step conf input = .ok t' → ThreadsOk conf t' :=
    fun t input t' ok kept taken => ok.step isMag kept taken
  have start := ThreadsOk.init conf tun hnp unarmed
  constructor
  · apply Meets.implies ?_ keeps start meets
    intro t input ok kept
    refine ⟨ok.typed.keys, ?_⟩
    intro c isSelected
    cases input with
    | check info => cases isSelected
    | fire env => cases isSelected
    | act i env => exact ok.sound (List.mem_of_getElem? isSelected) (kept c isSelected).1
  · intro final finished
    exact (run_invariant keeps start meets finished).typed.keys

def linkUp : MsgInfo := msgHandlerAssociate [knownNode] knownMac 0

/-- The node is registered while another call for its link event has ended. -/
theorem cases_find_their_type_links :
    ∃ final, run (step (confDefault .mag)) (init Tunnels.init [knownNode])
        [.check linkUp, .act 0 (Env.ample ⟨100, 0⟩ 10), .check linkUp,
          .act 0 (Env.ample ⟨101, 0⟩ 10), .fire (Env.ample ⟨102, 0⟩ 10)] = .ok final ∧
      final.daemon.entries = [0] ∧ final.daemon.OnePerKey := by
  have kept := cases_find_their_type (confDefault .mag) rfl Tunnels.init
    (fun _ => List.not_mem_nil) [knownNode]
    [.check linkUp, .act 0 (Env.ample ⟨100, 0⟩ 10), .check linkUp,
      .act 0 (Env.ample ⟨101, 0⟩ 10), .fire (Env.ample ⟨102, 0⟩ 10)] (by decide)
  exact ⟨_, rfl, by decide, kept.2 _ rfl⟩

/-- Two threads report the link before either of them has the lock: both find
no entry, and both register the node. -/
theorem cases_race :
    ¬ ∀ inputs : List ThreadInput, Meets (step (confDefault .mag))
        (fun t input => t.daemon.OnePerKey ∧
          ∀ c ∈ t.selected input, c.Sound (confDefault .mag) t.daemon)
        (init Tunnels.init [knownNode]) inputs ∧
      ∀ final, run (step (confDefault .mag)) (init Tunnels.init [knownNode]) inputs = .ok final →
        final.daemon.OnePerKey := by
  intro claimed
  have twice := (claimed [.check linkUp, .check linkUp, .act 0 (Env.ample ⟨100, 0⟩ 10),
    .act 0 (Env.ample ⟨100, 0⟩ 10)]).2 _ rfl
  revert twice
  simp only [OnePerKey]
  decide

end Threads

end OaiPmip
