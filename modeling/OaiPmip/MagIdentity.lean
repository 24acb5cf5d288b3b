import OaiPmip.MagMoves

/-!
# One entry for every mobile node

The gateway learns of a node through router solicitations, captured
associations, neighbour advertisements, link events of the 802.21 service and
acknowledgements.  Each builds its event in its own way: some ask the map for
the node's identifier, some leave it zero.  An entry is inserted under the
identifier of the map, so a node is recognised again when its events carry the
one that the map has for it.
-/

set_option autoImplicit false

namespace OaiPmip

open OaiPmip.HashKeys OaiPmip.Msgs OaiPmip.Runs

/-! ## Where events come from -/

def pmipPcapMsgHandlerAssociate (mnIid : In6Addr) (iif : Int) : MsgInfo :=
  { MsgInfo.zero with mnIid := eui48ToEui64 mnIid, iif := iif, msgEvent := .hasWLCCP }

def pmipPcapMsgHandlerDeassociate (mnIid : In6Addr) (iif : Int) : MsgInfo :=
  { MsgInfo.zero with mnIid := eui48ToEui64 mnIid, iif := iif, msgEvent := .hasDEREG }

def macAddress48 (mac : Octets 6) : In6Addr :=
  ⟨List.replicate 10 0 ++ mac.bytes, by simp [mac.size]⟩

def msgHandlerAssociate (map : List MnidHnp) (mac : Octets 6) (iif : Int) : MsgInfo :=
  { MsgInfo.zero with
    mnIid := eui48ToEui64 (macAddress48 mac)
    iif := iif
    mnNai := HnpCache.getNodeNai map (macAddress48 mac)
    msgEvent := .hasODTONELinkEvent }

def msgHandlerDeassociate (map : List MnidHnp) (mac : Octets 6) (iif : Int) : MsgInfo :=
  { msgHandlerAssociate map mac iif with msgEvent := .hasDEREG }

inductive MagSource where
  | solicitation (saddr daddr : In6Addr) (iif : Int)
  | advertisement (target saddr daddr : In6Addr) (iif : Int)
  | association (mnIid : In6Addr) (iif : Int)
  | deassociation (mnIid : In6Addr) (iif : Int)
  | linkUp (mac : Octets 6) (iif : Int)
  | linkDown (mac : Octets 6) (iif : Int)
  | acknowledgement (stack : MsgInfo) (m : Received)

/-- The event that a source hands to `mag_fsm`. -/
def MagSource.info (dupBeyond : Nat → Bool) (map : List MnidHnp) : MagSource → MsgInfo
  | .solicitation saddr daddr iif => icmpRsParse saddr daddr iif
  | .advertisement target saddr daddr iif => icmpNaParse map target saddr daddr iif
  | .association mnIid iif => pmipPcapMsgHandlerAssociate mnIid iif
  | .deassociation mnIid iif => pmipPcapMsgHandlerDeassociate mnIid iif
  | .linkUp mac iif => msgHandlerAssociate map mac iif
  | .linkDown mac iif => msgHandlerDeassociate map mac iif
  | .acknowledgement stack m => mhPbaParse dupBeyond stack m

inductive SourceInput where
  | source (s : MagSource) (env : Env)
  | fire (env : Env)

namespace Daemon

def inputOf (dupBeyond : Nat → Bool) (d : Daemon) : SourceInput → MagInput
  | .source s env => .event (s.info dupBeyond d.hnp) env
  | .fire env => .fire env

def sourceStep (conf : Conf) (dupBeyond : Nat → Bool) (d : Daemon) (input : SourceInput) : Outcome :=
  d.magStep conf (d.inputOf dupBeyond input)

/-! ## The lookups of an event -/

def IsForMe (conf : Conf) (info : MsgInfo) : Prop :=
  ¬ (info.msgEvent = .hasPBA ∧ info.dst ≠ conf.magAddressEgress)

instance (conf : Conf) (info : MsgInfo) : Decidable (IsForMe conf info) :=
  inferInstanceAs (Decidable (¬ (_ ∧ _)))

def OneEntryEach (d : Daemon) : Prop := (d.entries.map fun bce => (d.heap bce).mnSuffix).Nodup

/-- An event is looked up under the key of its node's entry, and neither of the
two lookups that can be made for it selects the entry of another node. -/
def LooksUp (conf : Conf) (d : Daemon) : MagInput → Prop
  | .event info _ =>
      IsForMe conf info →
        (∀ bce ∈ d.entries, (d.heap bce).mnSuffix = info.mnIid →
          d.key bce = ⟨info.mnNai, conf.ourAddress⟩) ∧
        (∀ bce ∈ d.cached info.mnNai conf.ourAddress, (d.heap bce).mnSuffix = info.mnIid) ∧
        ∀ bce ∈ d.cached info.mnNai (eui64ToEui48 info.mnIid), (d.heap bce).mnSuffix = info.mnIid
  | .fire _ => True

/-- An event of a node that has an entry carries the identifier which the map
has for the node.  An event of any other node carries one under which there is
no entry; if it registers the node, there is none under the identifier of the
answer either, and the map then has it for the node. -/
def Identifies (conf : Conf) (d : Daemon) : MagInput → Prop
  | .event info env =>
      IsForMe conf info →
        if ∃ bce ∈ d.entries, (d.heap bce).mnSuffix = info.mnIid then
          info.mnNai = HnpCache.getNodeNai d.hnp (eui64ToEui48 info.mnIid)
        else
          d.cached info.mnNai conf.ourAddress = none ∧
          (StartsRegistration conf info →
            ∀ answer ∈ (HnpCache.mnidHnpMap d.hnp env.radius (eui64ToEui48 info.mnIid)
                info.mnNai).2,
              d.cached answer.2 conf.ourAddress = none ∧
              (HnpCache.lookup (HnpCache.mnidHnpMap d.hnp env.radius (eui64ToEui48 info.mnIid)
                info.mnNai).1 (eui64ToEui48 info.mnIid)).map MnidHnp.mnNai = some answer.2)
  | .fire _ => True

instance (conf : Conf) (d : Daemon) : (input : MagInput) → Decidable (d.Identifies conf input)
  | .event _ _ => inferInstanceAs (Decidable (_ → ite _ _ _))
  | .fire _ => .isTrue trivial

/-- The entries are of the nodes that the map knows, each under its identifier. -/
structure IdentityOk (conf : Conf) (d : Daemon) : Prop extends HashOk d where
  mags : ∀ bce ∈ d.entries, (d.heap bce).mnServMagAddr = conf.ourAddress
  types : ∀ bce ∈ d.entries, (d.heap bce).type ≠ .noEntry
  mapped : ∀ bce ∈ d.entries, (HnpCache.lookup d.hnp (eui64ToEui48 (d.heap bce).mnSuffix)).map
    MnidHnp.mnNai = some (d.heap bce).mnNai
  single : OneEntryEach d

namespace IdentityOk

variable {conf : Conf} {d d' : Daemon}

theorem nai_eq (ok : IdentityOk conf d) {bce : Nat} (member : bce ∈ d.entries) :
    HnpCache.getNodeNai d.hnp (eui64ToEui48 (d.heap bce).mnSuffix) = (d.heap bce).mnNai := by
  obtain ⟨known, found, nai⟩ := Option.map_eq_some_iff.mp (ok.mapped bce member)
  simp only [HnpCache.getNodeNai, HnpCache.mnNaiHnpMap, found, nai]

theorem key_eq (ok : IdentityOk conf d) {info : MsgInfo} {env : Env}
    (identifies : d.Identifies conf (.event info env)) (isForMe : IsForMe conf info) {bce : Nat}
    (member : bce ∈ d.entries) (isNode : (d.heap bce).mnSuffix = info.mnIid) :
    d.key bce = ⟨info.mnNai, conf.ourAddress⟩ := by
  have carries := identifies isForMe
  rw [if_pos ⟨bce, member, isNode⟩, ← isNode, ok.nai_eq member] at carries
  simp only [key, PmipEntry.key, carries, ok.mags bce member]

theorem looksUp (ok : IdentityOk conf d) {input : MagInput}
    (identifies : d.Identifies conf input) : d.LooksUp conf input := by
  cases input with
  | fire env => trivial
  | event info env =>
      intro isForMe
      have selects : ∀ bce ∈ d.cached info.mnNai conf.ourAddress,
          (d.heap bce).mnSuffix = info.mnIid := by
        intro bce found
        obtain ⟨member, isKey⟩ := cached_some found
        by_cases known : ∃ other ∈ d.entries, (d.heap other).mnSuffix = info.mnIid
        · obtain ⟨other, present, isNode⟩ := known
          have same := ok.key_eq identifies isForMe present isNode
          rw [ok.toHashOk.key_injective member present (isKey.trans same.symm)]
          exact isNode
        · have carries := identifies isForMe
          rw [if_neg known] at carries
          rw [carries.1] at found
          cases found
      refine ⟨fun bce member isNode => ok.key_eq identifies isForMe member isNode, selects, ?_⟩
      intro bce found
      -- every entry is under the gateway's own address
      obtain ⟨member, isKey⟩ := cached_some found
      have isMag := congrArg PmipKey.magAddress isKey
      have own : eui64ToEui48 info.mnIid = conf.ourAddress := isMag.symm.trans (ok.mags bce member)
      exact selects bce (own ▸ found)

theorem fewer (ok : IdentityOk conf d) (hash : HashOk d')
    (fewer : d'.entries.Sublist d.entries) (map : d'.hnp = d.hnp)
    (same : ∀ bce ∈ d'.entries, (d'.heap bce).owner = (d.heap bce).owner)
    (types : ∀ bce ∈ d'.entries, (d'.heap bce).type ≠ .noEntry) : IdentityOk conf d' := by
  have mags : ∀ bce ∈ d'.entries, (d'.heap bce).mnServMagAddr = (d.heap bce).mnServMagAddr :=
    fun bce member => by
      have shown := congrArg PmipEntry.mnServMagAddr (same bce member)
      exact shown
  have nais : ∀ bce ∈ d'.entries, (d'.heap bce).mnNai = (d.heap bce).mnNai :=
    fun bce member => by
      have shown := congrArg PmipEntry.mnNai (same bce member)
      exact shown
  have suffixes : ∀ bce ∈ d'.entries, (d'.heap bce).mnSuffix = (d.heap bce).mnSuffix :=
    fun bce member => by
      have shown := congrArg PmipEntry.mnSuffix (same bce member)
      exact shown
  refine { hash with
    mags := ?_
    types := types
    mapped := ?_
    single := ?_ }
  · intro bce member
    rw [mags bce member]
    exact ok.mags bce (fewer.subset member)
  · intro bce member
    rw [map, suffixes bce member, nais bce member]
    exact ok.mapped bce (fewer.subset member)
  · have alike := List.map_congr_left suffixes
    simp only [OneEntryEach]
    rw [alike]
    exact (fewer.map _).nodup ok.single

theorem frame (ok : IdentityOk conf d) {bce : Nat} (isLive : d.live bce = true)
    (frame : Frame PmipEntry.owner bce d d')
    (typed : bce ∈ d.entries → (d'.heap bce).type ≠ .noEntry) : IdentityOk conf d' := by
  apply ok.fewer (ok.toHashOk.frame_owner isLive frame) (frame.entries ▸ List.Sublist.refl _)
    frame.hnp
  · intro p _
    by_cases here : p = bce
    · rw [here]
      exact frame.entry
    · rw [frame.others p here]
  · intro p member
    rw [frame.entries] at member
    by_cases here : p = bce
    · rw [here] at member ⊢
      exact typed member
    · rw [frame.others p here]
      exact ok.types p member

theorem delete (ok : IdentityOk conf d) {bce : Nat} (isLive : d.live bce = true)
    (frame : Frame PmipEntry.owner bce d d') : IdentityOk conf (d'.pmipBceDelete bce) := by
  have hash := ok.toHashOk.frame_owner isLive frame
  have others : ∀ p ∈ (d'.pmipBceDelete bce).entries,
      (d'.pmipBceDelete bce).heap p = d.heap p := by
    intro p member
    have different : p ≠ bce := by
      intro same
      subst same
      exact hash.delete_notMem member
    rw [delete_heap, frame.others p different]
  have sub := hash.delete_sublist bce
  rw [frame.entries] at sub
  apply ok.fewer (hash.delete bce) sub frame.hnp
  · intro p member
    rw [others p member]
  · intro p member
    rw [others p member]
    exact ok.types p (sub.subset member)

theorem registered (ok : IdentityOk conf d) {env : Env} {info : MsgInfo} {map : List MnidHnp}
    {pfx : In6Addr} {nai : Nai} (unknown : ∀ bce ∈ d.entries, (d.heap bce).mnSuffix ≠ info.mnIid)
    (free : d.cached nai conf.ourAddress = none)
    (learnt : (HnpCache.lookup map (eui64ToEui48 info.mnIid)).map MnidHnp.mnNai = some nai)
    (grows : ∀ mnid known, HnpCache.lookup d.hnp mnid = some known →
      HnpCache.lookup map mnid = some known) :
    IdentityOk conf ((d.registering conf env info map pfx nai).pmipCacheAdd conf env d.top) := by
  have frame := frame_registering conf d env info map pfx nai
  have added := pmipCacheAdd_added conf (d.registering conf env info map pfx nai) env d.top
  have cases_ := fun p => @registered_mem conf d env info map pfx nai p
  have others : ∀ p ∈ d.entries, ((d.registering conf env info map pfx nai).pmipCacheAdd conf env
      d.top).heap p = d.heap p := fun p member =>
    registered_heap conf d env info map pfx nai fun here => ok.toHashOk.top_notMem (here ▸ member)
  -- the new entry
  have content := (registered_entry conf d env info map pfx nai).trans
    (registering_entry conf d env info map pfx nai)
  have isNai := congrArg PmipEntry.mnNai content
  have isMag := congrArg PmipEntry.mnServMagAddr content
  have isSuffix := congrArg PmipEntry.mnSuffix content
  have isType := congrArg PmipEntry.type content
  simp only [PmipEntry.binding, PmipEntry.blank] at isNai isMag isSuffix isType
  have map_ : ((d.registering conf env info map pfx nai).pmipCacheAdd conf env d.top).hnp = map :=
    added.hnp.trans frame.hnp
  refine { HashOk.registering conf env info map pfx ok.toHashOk (fun _ => free) with
    mags := ?_
    types := ?_
    mapped := ?_
    single := ?_ }
  · intro p member
    rcases cases_ p member with rfl | before
    · exact isMag
    · rw [others p before]
      exact ok.mags p before
  · intro p member
    rcases cases_ p member with rfl | before
    · rw [isType]
      simp
    · rw [others p before]
      exact ok.types p before
  · intro p member
    rw [map_]
    rcases cases_ p member with rfl | before
    · rw [isSuffix, isNai]
      exact learnt
    · rw [others p before]
      obtain ⟨known, found, isKnown⟩ := Option.map_eq_some_iff.mp (ok.mapped p before)
      rw [grows _ known found, Option.map_some, isKnown]
  · have alike := List.map_congr_left fun p member => congrArg PmipEntry.mnSuffix (others p member)
    simp only [OneEntryEach]
    cases memory : env.nodeAlloc with
    | true =>
        have joined := registered_perm conf env info map pfx ok.toHashOk free memory
        apply (joined.map _).nodup_iff.mpr
        rw [List.map_cons, isSuffix, alike]
        apply List.nodup_cons.mpr
        refine ⟨fun present => ?_, ok.single⟩
        obtain ⟨p, member, same⟩ := List.mem_map.mp present
        exact unknown p member same
    | false =>
        have same : ((d.registering conf env info map pfx nai).pmipCacheAdd conf env d.top).entries =
            d.entries := by
          rw [entries, added.hash, memory]
          exact frame.entries
        rw [same, alike]
        exact ok.single

end IdentityOk

theorem magStep_identity {conf : Conf} (isMag : conf.mip6Entity = .mag) {d d' : Daemon}
    {input : MagInput} (ok : IdentityOk conf d) (identifies : d.Identifies conf input)
    (taken : d.magStep conf input = .ok d') : IdentityOk conf d' := by
  have touched : ∀ used, IdentityOk conf (d.touch used) := fun used =>
    { ok with }
  have isLive : ∀ bce, d.Known bce → d.live bce = true := by
    rintro bce (member | queued)
    · exact ok.live bce member
    · exact ok.queued bce queued
  cases magStep_move isMag taken with
  | looked used => exact touched used
  | leaked used =>
      have hash := (touched used).toHashOk.allocated .temp
      have different : ∀ p ∈ d.entries, p ≠ d.top := fun p member here =>
        ok.toHashOk.top_notMem (here ▸ member)
      apply ok.fewer hash (List.Sublist.refl _) rfl
      · intro p member
        simp only [allocated, touch, Function.update_of_ne (different p member)]
      · intro p member
        simp only [allocated, touch, Function.update_of_ne (different p member)]
        exact ok.types p member
  | registered used missing starts answer =>
      rename_i info env map pfx nai
      have isForMe : IsForMe conf info := by
        intro given
        obtain ⟨isPba, _⟩ := given
        obtain ⟨_, event⟩ := starts
        rw [isPba] at event
        simp at event
      have unknown : ¬ ∃ bce ∈ d.entries, (d.heap bce).mnSuffix = info.mnIid := by
        intro given
        obtain ⟨bce, member, isNode⟩ := given
        have isKey := ok.key_eq identifies isForMe member isNode
        have found := ok.toHashOk.cached_of_key member isKey
        simp only [cachedType, found] at missing
        exact ok.types bce member missing
      have carries := identifies isForMe
      rw [if_neg unknown] at carries
      obtain ⟨free, learnt⟩ := carries.2 starts (pfx, nai) (by rw [answer]; rfl)
      rw [answer] at learnt
      apply (touched used).registered ?_ free learnt (HnpCache.lookup_grows answer)
      intro bce member isNode
      exact unknown ⟨bce, member, isNode⟩
  | @worked _ bce _ known work =>
      apply ok.frame (isLive bce known) work.frame.owner
      intro member
      rw [work.frame.type]
      exact ok.types bce member
  | attached event found wasTemp work ended =>
      rename_i info env bce start
      have member := (cached_some found).1
      have whole := work.frame.owner.trans
        ((frame_magEndRegistration conf start env bce info.iif).of_ok ended)
      apply ok.frame (ok.live bce member) whole
      intro _
      rw [magEndRegistration_type ended]
      simp
  | @detached _ bce _ _ known asked work dereg =>
      exact ok.delete (isLive bce known)
        (work.frame.owner.trans ((frame_magDereg conf _ _ _ true).of_ok dereg))
  | @dropped _ bce _ known spent work => exact ok.delete (isLive bce known) work.frame.owner
  | @tunnelExpired _ mag queued =>
      have hash : HashOk { d with
          tun := { d.tun with tq := d.tun.tq.delTask (.tunnel mag) }.pmipTimerTunnelExpiredHandler
            mag } := { ok.toHashOk with
        queued := fun bce remains => ok.queued bce ((TQueue.mem_delTask _ _ _).mp remains).1 }
      exact { hash with
        mags := ok.mags
        types := ok.types
        mapped := ok.mapped
        single := ok.single }

theorem identityOk_init (conf : Conf) (tun : Tunnels) (hnp : List MnidHnp)
    (unarmed : ∀ bce, .bce bce ∉ tun.tq.list) : IdentityOk conf (init tun hnp) :=
  { hashOk_init tun hnp unarmed with
    mags := by simp [entries, init]
    types := by simp [entries, init]
    mapped := by simp [entries, init]
    single := by simp [OneEntryEach, entries, init] }

/-- In every run whose events are identified, each is looked up under the key of
its node's entry, none selects the entry of another node, and no node has two
entries. -/
theorem mag_identity_kept (conf : Conf) (isMag : conf.mip6Entity = .mag) (dupBeyond : Nat → Bool)
    (tun : Tunnels) (unarmed : ∀ bce, .bce bce ∉ tun.tq.list) (hnp : List MnidHnp)
    (inputs : List SourceInput)
    (meets : Meets (sourceStep conf dupBeyond)
      (fun d input => d.Identifies conf (d.inputOf dupBeyond input)) (init tun hnp) inputs) :
    Meets (sourceStep conf dupBeyond)
        (fun d input => d.LooksUp conf (d.inputOf dupBeyond input) ∧ OneEntryEach d)
        (init tun hnp) inputs ∧
      ∀ final, run (sourceStep conf dupBeyond) (init tun hnp) inputs = .ok final →
        OneEntryEach final := by
  have keeps : ∀ (d : Daemon) (input : SourceInput) (d' : Daemon), IdentityOk conf d →
      d.Identifies conf (d.inputOf dupBeyond input) →
      d.sourceStep conf dupBeyond input = .ok d' → IdentityOk conf d' :=
    fun d input d' ok identifies taken => magStep_identity isMag ok identifies taken
  have start := identityOk_init conf tun hnp unarmed
  constructor
  · apply Meets.implies ?_ keeps start meets
    intro d input ok identifies
    exact ⟨ok.looksUp identifies, ok.single⟩
  · intro final finished
    exact (run_invariant keeps start meets finished).single

def knownMac : Octets 6 := ⟨[0, 0, 0, 0, 0, 1], rfl⟩

def knownNode : MnidHnp := ⟨in6addrAny, macAddress48 knownMac, ⟨97 :: List.replicate 62 0, rfl⟩⟩

/-- The link of the node comes up twice. -/
theorem mag_identity_kept_links :
    ∃ final, run (sourceStep (confDefault .mag) fun _ => false) (init Tunnels.init [knownNode])
        [.source (.linkUp knownMac 0) (Env.ample ⟨100, 0⟩ 10),
          .source (.linkUp knownMac 0) (Env.ample ⟨101, 0⟩ 10)] = .ok final ∧
      final.entries = [0] ∧ OneEntryEach final := by
  have kept := mag_identity_kept (confDefault .mag) rfl (fun _ => false) Tunnels.init
    (fun _ => List.not_mem_nil) [knownNode]
    [.source (.linkUp knownMac 0) (Env.ample ⟨100, 0⟩ 10),
      .source (.linkUp knownMac 0) (Env.ample ⟨101, 0⟩ 10)] (by decide)
  exact ⟨_, rfl, by decide, kept.2 _ rfl⟩

/-- The node solicits twice: its second solicitation is not looked up under the
key of its entry. -/
theorem mag_identity_lost :
    ¬ ∀ inputs : List SourceInput, Meets (sourceStep (confDefault .mag) fun _ => false)
      (fun d input => d.LooksUp (confDefault .mag) (d.inputOf (fun _ => false) input) ∧
        OneEntryEach d) (init Tunnels.init [knownNode]) inputs := by
  intro claimed
  obtain ⟨_, second⟩ := claimed
    [.source (.solicitation (linkLocalAddr (eui48ToEui64 (macAddress48 knownMac))) in6addrAny 0)
        (Env.ample ⟨100, 0⟩ 10),
      .source (.solicitation (linkLocalAddr (eui48ToEui64 (macAddress48 knownMac))) in6addrAny 0)
        (Env.ample ⟨101, 0⟩ 10)]
  obtain ⟨⟨looksUp, _⟩, _⟩ := second _ rfl
  have isKey := (looksUp (by decide)).1 0 (by decide) (by decide)
  revert isKey
  decide

end Daemon

end OaiPmip
