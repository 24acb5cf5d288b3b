import OaiPmip.LmaMoves
import OaiPmip.MagMoves
import OaiPmip.MhRoundTrip

/-!
# Registration handshake

An update that the gateway sends for an entry, as bytes, is answered by the
anchor with one acknowledgement, and the bytes of that acknowledgement are the
response that the entry waits for until the gateway sends its next update for
it.  The first message of a registration, the refreshes and the retransmissions
with their renewed sequence numbers are treated alike: an entry keeps the update
that was sent last for it.
-/

set_option autoImplicit false

namespace OaiPmip

open OaiPmip.HashKeys OaiPmip.Msgs OaiPmip.Runs OaiPmip.Wire

namespace Daemon

structure Echoes (info : MsgInfo) (pba : Pba) : Prop where
  seqno : pba.seqno = info.seqno
  mnNai : pba.mnNai = info.mnNai
  mnPrefix : pba.mnPrefix = info.mnPrefix
  mnId : pba.mnId = mnidOf info.mnIid
  timestamp : pba.timestamp = info.timestamp

/-- Between two states one acknowledgement was sent: to the source of the
update, repeating it. -/
def AnswersOnce (info : MsgInfo) (d d' : Daemon) : Prop :=
  ∃ pba, Echoes info pba ∧
    acknowledgements d'.log = (info.src, pba) :: acknowledgements d.log

section Anchor
variable {conf : Conf} {d d' : Daemon} {env : Env} {info : MsgInfo} {bce : Nat}

theorem answersOnce_of_quiet {before after : Daemon}
    (start : acknowledgements before.log = acknowledgements d.log)
    (answers : AnswersOnce info before after)
    (rest : acknowledgements d'.log = acknowledgements after.log) : AnswersOnce info d d' := by
  obtain ⟨pba, echoes, sent⟩ := answers
  exact ⟨pba, echoes, by rw [rest, sent, start]⟩

theorem lmaRegNoNewTunnel_answers (memory : env.mhAlloc = true) {base : PmipEntry}
    (updated : (d.heap bce).untunnelled = (base.updated conf info).untunnelled) :
    AnswersOnce info d (d.lmaRegNoNewTunnel conf env bce) := by
  have isSeqno := congrArg PmipEntry.seqnoIn updated
  have isNai := congrArg PmipEntry.mnNai updated
  have isPrefix := congrArg PmipEntry.mnPrefix updated
  have isSuffix := congrArg PmipEntry.mnSuffix updated
  have isTime := congrArg PmipEntry.timestamp updated
  have isMag : (d.heap bce).mnServMagAddr = info.src := congrArg PmipEntry.mnServMagAddr updated
  -- the status and the time that are written first are not in the answer
  let started := (d.modify bce fun e => { e with status := 0 }).pmipCacheStart env bce
  have same : started.heap bce = { d.heap bce with status := 0, addTime := env.now } := by
    simp [started, pmipCacheStart, addTask, modify]
  refine ⟨pbaOf (started.heap bce) (started.heap bce).lifetime, ?_, ?_⟩
  · rw [same]
    exact ⟨isSeqno, isNai, isPrefix, congrArg mnidOf isSuffix, isTime⟩
  · have sent := mhSendPba_log started memory conf.ourAddress (started.heap bce).mnServMagAddr bce
      (started.heap bce).lifetime
    have there : (started.heap bce).mnServMagAddr = info.src := by
      rw [same]
      exact isMag
    change acknowledgements (started.mhSendPba env conf.ourAddress
      (started.heap bce).mnServMagAddr bce (started.heap bce).lifetime).log = _
    rw [sent, ← there]
    rfl

theorem addClientRoute_ends (clientNai : Nai) (mag : In6Addr) (clientMemory : env.clientAlloc = true)
    (magMemory : env.magAlloc = true) :
    Ends TunnelFault (fun d' => d'.log = d.log) (d.addClientRoute env clientNai mag) := by
  have lists : ∃ clients, ClientRoutes.addClientRoute d.clients clientNai mag env.clientAlloc
      env.magAlloc = .ok clients := by
    simp only [ClientRoutes.addClientRoute, ClientRoutes.addMagToClient]
    rw [clientMemory, magMemory]
    split
    · by_cases listed : mag ∈ ‹ClientRoute›.mags
      · exact ⟨_, by rw [if_pos listed]⟩
      · exact ⟨_, by rw [if_neg listed]; rfl⟩
    · exact ⟨_, rfl⟩
  obtain ⟨clients, listed⟩ := lists
  simp only [addClientRoute]
  rw [listed]
  exact rfl

theorem lmaReg_answers (memory : env.mhAlloc = true) (clientMemory : env.clientAlloc = true)
    (magMemory : env.magAlloc = true) {base : PmipEntry}
    (updated : (d.heap bce).untunnelled = (base.updated conf info).untunnelled) :
    Ends TunnelFault (AnswersOnce info d) (d.lmaReg conf env bce) := by
  simp only [lmaReg]
  apply (unanswered_tunnelAdd conf (d.touch [bce]) env bce _ _).bind
  intro tunnelled opened quiet
  have opens := (frame_tunnelAdd PmipEntry.untunnelled (d.touch [bce]) bce (fun _ _ => rfl)
    conf env _ _).of_ok opened
  have forwards := (opens.trans (frame_lmaForward conf tunnelled bce)).entry
  have answers : AnswersOnce info (tunnelled.lmaForward conf bce)
      ((tunnelled.lmaForward conf bce).lmaRegNoNewTunnel conf env bce) :=
    lmaRegNoNewTunnel_answers memory (forwards.trans updated)
  apply (addClientRoute_ends _ _ clientMemory magMemory).bind
  intro routed _ still
  apply answersOnce_of_quiet _ answers
  · change acknowledgements (.linkUp _ _ :: routed.log) = _
    rw [still]
    rfl
  · exact (unanswered_lmaForward conf tunnelled bce).answers.trans quiet.answers

theorem LmaOk.fsm_answers (ok : LmaOk d) (fromMag : info.mnServMagAddr = info.src)
    (asks : Registers info) (named : info.src ≠ in6addrAny) (entryMemory : env.entryAlloc = true)
    (memory : env.mhAlloc = true) (clientMemory : env.clientAlloc = true)
    (magMemory : env.magAlloc = true) :
    Ends TunnelFault (AnswersOnce info d) (d.lmaFsm conf env info) := by
  rw [ok.lmaFsm_eq conf env fromMag]
  cases found : d.cached info.mnNai info.src with
  | none =>
      dsimp only
      simp only [lmaNoEntry]
      rw [if_pos (And.intro asks.1 asks.2), pmipCacheAlloc_eq, entryMemory]
      apply (unanswered_lmaUpdate conf (d.admitted info) env d.top info).bind
      intro updated update quiet
      have entry := congrArg PmipEntry.untunnelled (lmaUpdate_entry update)
      apply (lmaReg_answers memory clientMemory magMemory entry).bind
      intro filled _ answers
      apply answersOnce_of_quiet quiet.answers answers
      rw [(pmipCacheAdd_keeps conf filled env d.top).1]
  | some bce =>
      have serving := cached_mag found
      have served : ¬ (d.heap bce).mnServMagAddr = in6addrAny := serving ▸ named
      dsimp only
      rw [if_pos asks]
      have refreshed : Ends TunnelFault (AnswersOnce info d) (d.lmaRefresh conf env info bce) := by
        simp only [lmaRefresh, lmaFirstMag]
        rw [if_neg served, ok_bind, if_pos serving]
        apply (unanswered_lmaUpdate conf d env bce info).bind
        intro updated update quiet
        have entry := congrArg PmipEntry.untunnelled (lmaUpdate_entry update)
        exact answersOnce_of_quiet quiet.answers (lmaRegNoNewTunnel_answers memory entry) rfl
      exact refreshed.bind fun next _ answers => answers

end Anchor

/-! ## The gateway's last update -/

/-- Every entry waits for the acknowledgement of the update that it keeps. -/
structure Speaking (d : Daemon) : Prop where
  ready : ∀ bce, (d.heap bce).Ready
  iid : ∀ bce, IsIid (d.heap bce).mnSuffix

/-- What registers a node carries an interface identifier: solicitations have
it from `get_node_id`, link events from `EUI48_to_EUI64`. -/
def CarriesIid (conf : Conf) : MagInput → Prop
  | .event info _ => StartsRegistration conf info → IsIid info.mnIid
  | .fire _ => True

instance (conf : Conf) (input : MagInput) : Decidable (CarriesIid conf input) :=
  match input with
  | .event info _ => inferInstanceAs (Decidable (StartsRegistration conf info → IsIid info.mnIid))
  | .fire _ => .isTrue trivial

section Gateway
variable {conf : Conf} {d d' : Daemon} {env : Env} {info : MsgInfo} {bce : Nat}

theorem said_tunnelAdd {remote : In6Addr} {link : Int}
    (opened : d.pmipTunnelAdd conf env bce remote link = .ok d') : Said bce d d' := by
  simp only [pmipTunnelAdd] at opened
  split at opened
  · cases opened
  · cases opened
    exact Or.inl ⟨rfl, by simp [modify, emit, PmipEntry.spoken]⟩

theorem said_tunnelDel (closed : d.pmipTunnelDel conf env bce = .ok d') : Said bce d d' := by
  unfold pmipTunnelDel at closed
  dsimp only at closed
  split at closed
  · cases closed
  · cases closed
    exact Or.inl ⟨rfl, rfl⟩

theorem said_magEndRegistration {iif : Int}
    (ended : d.magEndRegistration conf env bce iif = .ok d') : Said bce d d' := by
  simp only [magEndRegistration] at ended
  obtain ⟨tunnelled, opened, done⟩ := bind_eq_ok.mp ended
  have registers : Said bce d (d.registered conf env bce) :=
    Or.inl ⟨rfl, by simp [registered, pmipCacheStart, addTask, modify, PmipEntry.spoken]⟩
  have uplinks : Said bce tunnelled (tunnelled.magUplinkAdd bce) := by
    unfold magUplinkAdd
    dsimp only
    split <;> exact Or.inl ⟨rfl, rfl⟩
  have advertises : ∀ start : Daemon, Said bce start ((start.magKickoffRa bce).getMnAddr bce) :=
    fun start => Or.inl ⟨rfl, by simp [magKickoffRa, getMnAddr, modify, emit, touch, PmipEntry.spoken]⟩
  have routes : ∀ (start : Daemon) (addr : In6Addr) (link : Int),
      Said bce start (start.magSetupRoute conf addr link) := by
    intro start addr link
    unfold magSetupRoute
    dsimp only
    split <;> exact Or.inl ⟨rfl, rfl⟩
  cases done
  exact (((registers.trans (said_tunnelAdd opened)).trans uplinks).trans (advertises _)).trans
    (routes _ _ _)

theorem said_magDereg (ready : (d.heap bce).Ready)
    (dereg : d.magDereg conf env bce true = .ok d') : Said bce d d' := by
  simp only [magDereg] at dereg
  obtain ⟨closed, closes, done⟩ := bind_eq_ok.mp dereg
  have unroutes : Said bce d (d.magUnroute conf bce) := by
    unfold magUnroute magRemoveRoute
    dsimp only
    split <;> exact Or.inl ⟨rfl, by simp [getMnAddr, modify, emit, touch, PmipEntry.spoken]⟩
  have uplinks : ∀ start : Daemon, Said bce start (start.magUplinkDel bce) := by
    intro start
    unfold magUplinkDel
    dsimp only
    split <;> exact Or.inl ⟨rfl, rfl⟩
  have before := (unroutes.trans (uplinks _)).trans (said_tunnelDel closes)
  cases done
  exact before.trans ((worked_mhSendPbu closed env bce _ _ _).said (before.ready ready))

theorem said_cacheAdd : Said bce d (d.pmipCacheAdd conf env bce) := by
  refine Or.inl ⟨by rw [(pmipCacheAdd_keeps conf d env bce).1], ?_⟩
  obtain ⟨heap, _, _, _⟩ := cacheInsert_keeps (d.nextBid bce) env bce
  have numbered : ((d.nextBid bce).heap bce).spoken = (d.heap bce).spoken := by
    simp [nextBid, modify, PmipEntry.spoken]
  simp only [pmipCacheAdd]
  split
  · rename_i shape
    rw [shape] at heap
    rw [heap, numbered]
  · rename_i next shape
    rw [shape] at heap
    have counted : ((next.inserted conf env bce).heap bce).spoken = (next.heap bce).spoken := by
      unfold inserted
      dsimp only
      split <;> simp [pmipCacheStart, addTask, modify, PmipEntry.spoken]
    rw [counted, heap, numbered]

theorem worked_registering (conf : Conf) (d : Daemon) (env : Env) (info : MsgInfo)
    (map : List MnidHnp) (pfx : In6Addr) (nai : Nai) :
    ∃ filled : Daemon, Worked d.top filled (d.registering conf env info map pfx nai) ∧
      updates filled.log = updates d.log ∧ (filled.heap d.top).mhVec = none ∧
      (filled.heap d.top).mnSuffix = info.mnIid ∧ ∀ q, q ≠ d.top → filled.heap q = d.heap q := by
  let filled := ({ d.allocated .temp with hnp := map }.modify d.top fun e =>
    { e with
      mnNai := nai
      mnPrefix := pfx
      mnSuffix := info.mnIid
      mnHwAddress := eui64ToEui48 info.mnIid }).modify d.top fun e =>
    { e with
      ourAddr := conf.ourAddress
      mnSuffix := info.mnIid
      mnPrefix := pfx
      mnServMagAddr := conf.ourAddress
      mnServLmaAddr := conf.lmaAddress
      seqnoOut := 0
      pbuFlags := pbuFlagsAckPr
      link := info.iif
      mnLinkLocalAddr := linkLocalAddr info.mnIid
      type := .temp }
  have unsent : (filled.heap d.top).mhVec = none := by
    simp [filled, modify, allocated, PmipEntry.blank]
  refine ⟨filled, ?_, rfl, unsent, by simp [filled, modify], ?_⟩
  · exact (worked_mhSendPbu filled env d.top conf.magAddressEgress conf.lmaAddress ⟨10, 0⟩).trans
      (worked_startRetransmission conf _ env d.top)
  · intro q other
    simp [filled, modify, allocated, Function.update_of_ne other]

theorem ready_of_said (ready : ∀ q, (d.heap q).Ready) (said : Said bce d d')
    (others : ∀ q, q ≠ bce → d'.heap q = d.heap q) : ∀ q, (d'.heap q).Ready := by
  intro q
  by_cases here : q = bce
  · rw [here]
    exact said.ready (ready bce)
  · rw [others q here]
    exact ready q

theorem ready_move (ready : ∀ q, (d.heap q).Ready) {input : MagInput}
    (moved : MagMove conf d input d') : ∀ q, (d'.heap q).Ready := by
  cases moved with
  | looked used => exact ready
  | leaked used =>
      intro q
      by_cases here : q = d.top
      · intro pbu kept
        simp [here, allocated, touch, PmipEntry.blank] at kept
      · simpa [allocated, touch, Function.update_of_ne here] using ready q
  | @registered info env map pfx nai used missing starts answer =>
      obtain ⟨filled, work, -, unsent, -, others⟩ :=
        worked_registering conf (d.touch used) env info map pfx nai
      have blank : ∀ q, (filled.heap q).Ready := by
        intro q
        by_cases here : q = d.top
        · intro pbu kept
          rw [here] at kept
          cases unsent.symm.trans kept
        · rw [others q here]
          exact ready q
      have sent := ready_of_said blank (work.said (blank _)) work.frame.others
      exact ready_of_said sent said_cacheAdd (pmipCacheAdd_added conf _ env d.top).others
  | @worked _ bce _ known work =>
      exact ready_of_said ready (work.said (ready bce)) work.frame.others
  | @attached info env bce start _ event found wasTemp work ended =>
      have before := ready_of_said ready (work.said (ready bce)) work.frame.others
      exact ready_of_said before (said_magEndRegistration ended)
        ((frame_magEndRegistration conf start env bce _).of_ok ended).others
  | @detached _ bce start mid known asked work dereg =>
      have before := ready_of_said ready (work.said (ready bce)) work.frame.others
      have ends : ∀ q, (mid.heap q).Ready := ready_of_said before (said_magDereg (before bce) dereg)
        ((frame_magDereg conf start _ bce true).of_ok dereg).others
      exact ends
  | @dropped _ bce start known spent work =>
      exact ready_of_said ready (work.said (ready bce)) work.frame.others
  | tunnelExpired queued => exact ready

namespace Speaking

theorem of_said (ok : Speaking d) (said : Said bce d d')
    (suffix : (d'.heap bce).mnSuffix = (d.heap bce).mnSuffix)
    (others : ∀ q, q ≠ bce → d'.heap q = d.heap q) : Speaking d' where
  ready := ready_of_said ok.ready said others
  iid := by
    intro q
    by_cases here : q = bce
    · rw [here, suffix]
      exact ok.iid bce
    · rw [others q here]
      exact ok.iid q

theorem of_frame (ok : Speaking d) (said : Said bce d d') (frame : Frame PmipEntry.owner bce d d') :
    Speaking d' := by
  have suffix : (d'.heap bce).owner.mnSuffix = (d.heap bce).owner.mnSuffix :=
    congrArg PmipEntry.mnSuffix frame.entry
  exact ok.of_said said suffix frame.others

theorem move (ok : Speaking d) {input : MagInput} (carries : CarriesIid conf input)
    (moved : MagMove conf d input d') :
    Speaking d' ∧ (updates d'.log = updates d.log ∨
      ∃ bce pbu, (updates d'.log).head? = some pbu ∧ Awaits (d'.heap bce) pbu) := by
  have told : ∀ {bce : Nat} {start final : Daemon}, Said bce start final →
      updates start.log = updates d.log → updates final.log = updates d.log ∨
        ∃ bce pbu, (updates final.log).head? = some pbu ∧ Awaits (final.heap bce) pbu := by
    rintro bce start final (⟨quiet, _⟩ | sent) before
    · exact Or.inl (quiet.trans before)
    · exact Or.inr ⟨bce, sent⟩
  cases moved with
  | looked used => exact ⟨⟨ok.ready, ok.iid⟩, Or.inl rfl⟩
  | leaked used =>
      refine ⟨⟨fun q => ?_, fun q => ?_⟩, Or.inl rfl⟩
      · by_cases here : q = d.top
        · intro pbu kept
          simp [here, allocated, touch, PmipEntry.blank] at kept
        · simpa [allocated, touch, Function.update_of_ne here] using ok.ready q
      · by_cases here : q = d.top
        · simp [here, allocated, touch, PmipEntry.blank, IsIid, in6addrAny, Octets.zero]
        · simpa [allocated, touch, Function.update_of_ne here] using ok.iid q
  | @registered info env map pfx nai used missing starts answer =>
      obtain ⟨filled, work, quiet, unsent, suffix, others⟩ :=
        worked_registering conf (d.touch used) env info map pfx nai
      have blank : Speaking filled := by
        refine ⟨fun q => ?_, fun q => ?_⟩
        · by_cases here : q = d.top
          · intro pbu kept
            rw [here] at kept
            cases unsent.symm.trans kept
          · rw [others q here]
            exact ok.ready q
        · by_cases here : q = d.top
          · rw [here]
            exact suffix ▸ carries starts
          · rw [others q here]
            exact ok.iid q
      have first := work.said (blank.ready _)
      have added := pmipCacheAdd_added conf ((d.touch used).registering conf env info map pfx nai)
        env d.top
      have same := congrArg PmipEntry.mnSuffix added.entry
      have ends := (blank.of_frame first work.frame.owner).of_said said_cacheAdd same added.others
      exact ⟨ends, told (first.trans said_cacheAdd) quiet⟩
  | @worked _ bce _ known work =>
      have said := work.said (ok.ready bce)
      exact ⟨ok.of_frame said work.frame.owner, told said rfl⟩
  | @attached info env bce start _ event found wasTemp work ended =>
      have said := (work.said (ok.ready bce)).trans (said_magEndRegistration ended)
      exact ⟨ok.of_frame said
        (work.frame.owner.trans ((frame_magEndRegistration conf start env bce _).of_ok ended)),
        told said rfl⟩
  | @detached _ bce start mid known asked work dereg =>
      have first := work.said (ok.ready bce)
      have said := first.trans (said_magDereg (first.ready (ok.ready bce)) dereg)
      have ends := ok.of_frame said
        (work.frame.owner.trans ((frame_magDereg conf start _ bce true).of_ok dereg))
      exact ⟨⟨ends.ready, ends.iid⟩, told said rfl⟩
  | @dropped _ bce start known spent work =>
      have said := work.said (ok.ready bce)
      have ends := ok.of_frame said work.frame.owner
      exact ⟨⟨ends.ready, ends.iid⟩, told said rfl⟩
  | tunnelExpired queued => exact ⟨⟨ok.ready, ok.iid⟩, Or.inl rfl⟩

end Speaking

end Gateway

/-! ## The handshake -/

/-- Memory is there for whatever the anchor allocates before it answers. -/
structure Furnished (env : Env) : Prop where
  entryAlloc : env.entryAlloc = true
  mhAlloc : env.mhAlloc = true
  clientAlloc : env.clientAlloc = true
  magAlloc : env.magAlloc = true

theorem encodeLifetime_ne_zero {lifetime : Timespec} (least : 4 ≤ lifetime.tvSec)
    (most : lifetime.tvSec < 2 ^ 18) : encodeLifetime lifetime ≠ 0 := by
  intro zero
  have field := encodeLifetime_toNat (by omega) most
  rw [zero] at field
  simp at field
  omega

theorem mnidOf_iidOf (mnId : Octets 8) : mnidOf (iidOf mnId) = mnId := by
  apply Octets.ext_bytes
  change (List.replicate 8 0 ++ mnId.bytes).drop 8 = mnId.bytes
  simp

section Handshake
variable {anchor : Conf} {dupBeyond : Nat → Bool} {d : Daemon} {env : Env} {m : Received} {pbu : Pbu}

theorem LmaOk.recv_answers (ok : LmaOk d) (furnished : Furnished env)
    (carried : Carries m (pbuBytes .little pbu)) (mine : m.dst = anchor.lmaAddress)
    (named : m.src ≠ in6addrAny) (asks : pbu.lifetime ≠ 0) :
    Ends TunnelFault (fun d' => ∃ pba : Pba,
        acknowledgements d'.log = (m.src, pba) :: acknowledgements d.log ∧
        pba.seqno = pbu.seqno ∧ pba.timestamp = pbu.timestamp.getD ⟨0, 0⟩ ∧
        pba.mnPrefix = pbu.mnPrefix ∧ pba.mnId = pbu.mnId)
      (d.pmipLmaRecvPbu anchor dupBeyond env m) := by
  have parsed := mhPbuParseOn_carried carried mine dupBeyond MsgInfo.zero
  rw [mhPbuParseOn_little] at parsed
  simp only [pmipLmaRecvPbu]
  rw [parsed]
  have registers : 0 < (4 * pbu.lifetime.toNat : Int) := by
    have positive : pbu.lifetime.toNat ≠ 0 := fun zero => asks (UInt16.toNat_inj.mp zero)
    omega
  apply (ok.fsm_answers rfl ⟨rfl, registers⟩ named furnished.entryAlloc furnished.mhAlloc
    furnished.clientAlloc furnished.magAlloc).imp
  rintro d' _ ⟨pba, echoes, sent⟩
  exact ⟨pba, sent, echoes.seqno, echoes.timestamp, echoes.mnPrefix,
    echoes.mnId.trans (mnidOf_iidOf pbu.mnId)⟩

theorem accepts_answer {e : PmipEntry} {pba : Pba} (awaits : Awaits e pbu) (iid : IsIid e.mnSuffix)
    (seqno : pba.seqno = pbu.seqno) (timestamp : pba.timestamp = pbu.timestamp.getD ⟨0, 0⟩)
    (mnPrefix : pba.mnPrefix = pbu.mnPrefix) (mnId : pba.mnId = pbu.mnId)
    (carried : Carries m (pbaBytes .little pba)) (stack : MsgInfo) :
    isPbaResponse (mhPbaParse dupBeyond stack m) e = true := by
  have parsed := mhPbaParseOn_carried carried dupBeyond stack
  rw [mhPbaParseOn_little] at parsed
  have isIid : iidOf pba.mnId = e.mnSuffix := by
    rw [mnId, awaits.mnId]
    exact iid.restored
  rw [parsed]
  simp [isPbaResponse, seqno.trans awaits.seqno, timestamp.trans awaits.timestamp,
    mnPrefix.trans awaits.mnPrefix, isIid]

end Handshake

section Runs
variable {gateway : Conf}

theorem speaking_step (isMag : gateway.mip6Entity = .mag) (d : Daemon) (input : MagInput)
    (d' : Daemon) (ok : Speaking d) (carries : CarriesIid gateway input)
    (taken : d.magStep gateway input = .ok d') : Speaking d' :=
  (ok.move carries (magStep_move isMag taken)).1

theorem speaking_run (isMag : gateway.mip6Entity = .mag) {inputs : List MagInput} {d d' : Daemon}
    (ok : Speaking d) (carries : Meets (magStep gateway) (fun _ => CarriesIid gateway) d inputs)
    (finished : run (magStep gateway) d inputs = .ok d') : Speaking d' :=
  run_invariant (speaking_step isMag) ok carries finished

theorem speaking_init (tun : Tunnels) (hnp : List MnidHnp) : Speaking (init tun hnp) := by
  refine ⟨fun bce pbu kept => ?_, fun bce => ?_⟩
  · cases kept
  · change IsIid in6addrAny
    decide

/-- An update that the gateway sends, for the first time or again, is answered
by the anchor with one acknowledgement.  As long as the update is the last one
that was sent for its entry, the entry accepts that acknowledgement. -/
theorem handshake_completes {anchor : Conf} (isMag : gateway.mip6Entity = .mag)
    (isLma : anchor.mip6Entity = .ha) (shared : anchor.lmaAddress = gateway.lmaAddress)
    (named : gateway.ourAddress ≠ in6addrAny) (dupBeyond : Nat → Bool)
    {magTun lmaTun : Tunnels} {magHnp lmaHnp : List MnidHnp}
    (unarmed : ∀ bce, .bce bce ∉ lmaTun.tq.list)
    -- a run of the gateway, a step of it that sends an update, and what follows
    {inputs later : List MagInput} {input : MagInput} {before sent now : Daemon}
    (carries : ∀ event ∈ inputs ++ input :: later, CarriesIid gateway event)
    (starts : run (magStep gateway) (init magTun magHnp) inputs = .ok before)
    (sends : before.magStep gateway input = .ok sent)
    (speaks : updates sent.log ≠ updates before.log)
    (follows : run (magStep gateway) sent later = .ok now)
    -- a run of the anchor
    {messages : List LmaInput} {d : Daemon}
    (serves : run (lmaStep anchor dupBeyond) (init lmaTun lmaHnp) messages = .ok d) :
    ∃ bce pbu, (updates sent.log).head? = some pbu ∧ (sent.heap bce).mhVec = some pbu ∧
      ∀ (lifetime : Timespec) (env : Env) (m : Received),
        pbu.lifetime = encodeLifetime lifetime → 4 ≤ lifetime.tvSec → lifetime.tvSec < 2 ^ 18 →
        Furnished env → m.src = gateway.ourAddress → m.dst = gateway.lmaAddress →
        Carries m (pbuBytes .little pbu) ∨ Carries m (retransBytes .little pbu) →
        Ends TunnelFault (fun d' => ∃ pba,
            acknowledgements d'.log = (gateway.ourAddress, pba) :: acknowledgements d.log ∧
            ((now.heap bce).mhVec = some pbu → ∀ (answer : Received) (stack : MsgInfo),
              Carries answer (pbaBytes .little pba) →
                isPbaResponse (mhPbaParse dupBeyond stack answer) (now.heap bce) = true))
          (d.pmipLmaRecvPbu anchor dupBeyond env m) := by
  have early : Speaking before := speaking_run isMag (speaking_init magTun magHnp)
    (meets_of_mem (fun event member => carries event (List.mem_append_left _ member)) _) starts
  have here : CarriesIid gateway input := carries input (by simp)
  obtain ⟨ready, told⟩ := early.move here (magStep_move isMag sends)
  have late : Speaking now := speaking_run isMag ready
    (meets_of_mem (fun event member => carries event (by simp [member])) _) follows
  obtain ⟨bce, pbu, newest, awaits⟩ := told.resolve_left speaks
  refine ⟨bce, pbu, newest, awaits.kept, ?_⟩
  intro lifetime env m isLifetime least most furnished isSrc isDst carried
  have asks : pbu.lifetime ≠ 0 := isLifetime ▸ encodeLifetime_ne_zero least most
  have carries : Carries m (pbuBytes .little pbu) := by
    rcases carried with first | again
    · exact first
    · rw [pbuBytes_eq]
      exact again
  apply ((lmaRun_ok isLma unarmed serves).recv_answers furnished carries (isDst.trans shared.symm)
    (isSrc ▸ named) asks).imp
  rintro d' _ ⟨pba, answered, seqno, timestamp, mnPrefix, mnId⟩
  rw [isSrc] at answered
  refine ⟨pba, answered, fun still answer stack isAnswer => ?_⟩
  exact accepts_answer (late.ready bce pbu still) (late.iid bce) seqno timestamp mnPrefix mnId
    isAnswer stack

/-- A router solicitation from fe80::1 on the ingress link of the default
configuration, and the map that has an answer for it. -/
def firstSolicitation : MagInput :=
  .event (icmpRsParse (linkLocalAddr in6addrLoopback) in6addrAny 0) (Env.ample ⟨1700000000, 0⟩ 5)

def solicited : Daemon :=
  init Tunnels.init [⟨in6addrLoopback, eui64ToEui48 in6addrLoopback, Octets.zero 63⟩]

theorem handshake_completes_solicited :
    ∃ sent, solicited.magStep (confDefault .mag) firstSolicitation = .ok sent ∧
      ∃ bce pbu, (updates sent.log).head? = some pbu ∧
        Ends TunnelFault (fun d' => ∃ pba,
            acknowledgements d'.log = [(in6addrLoopback, pba)] ∧
            isPbaResponse (mhPbaParse (fun _ => false) MsgInfo.zero
              (arriving (pbaBytes .little pba) in6addrLoopback in6addrLoopback 2))
                (sent.heap bce) = true)
          ((init Tunnels.init []).pmipLmaRecvPbu (confDefault .ha) (fun _ => false)
            (Env.ample ⟨1700000000, 0⟩ 5)
            (arriving (pbuBytes .little pbu) in6addrLoopback in6addrLoopback 2)) := by
  let sent := reached (solicited.magStep (confDefault .mag) firstSolicitation)
  have sends : solicited.magStep (confDefault .mag) firstSolicitation = .ok sent := rfl
  have isMag : (confDefault .mag).mip6Entity = .mag := rfl
  have isLma : (confDefault .ha).mip6Entity = .ha := rfl
  have unarmed : ∀ bce, .bce bce ∉ Tunnels.init.tq.list := fun bce => List.not_mem_nil
  have carries : ∀ event ∈ [] ++ firstSolicitation :: [], CarriesIid (confDefault .mag) event := by
    decide
  have starts : run (magStep (confDefault .mag)) solicited [] = .ok solicited := rfl
  have follows : run (magStep (confDefault .mag)) sent [] = .ok sent := rfl
  have speaks : updates sent.log ≠ updates solicited.log := by decide +kernel
  have serves : run (lmaStep (confDefault .ha) fun _ => false) (init Tunnels.init []) [] =
      .ok (init Tunnels.init []) := rfl
  have tenSeconds : (updates sent.log).head?.map Pbu.lifetime = some (encodeLifetime ⟨10, 0⟩) := by
    decide +kernel
  clear_value sent
  obtain ⟨bce, pbu, newest, kept, completes⟩ := handshake_completes isMag isLma rfl (by decide)
    (fun _ => false) unarmed carries starts sends speaks follows serves
  rw [newest] at tenSeconds
  refine ⟨sent, sends, bce, pbu, newest, ?_⟩
  have ends := completes ⟨10, 0⟩ (Env.ample ⟨1700000000, 0⟩ 5) _ (Option.some.inj tenSeconds)
    (by decide) (by decide) ⟨rfl, rfl, rfl, rfl⟩ rfl rfl (Or.inl (arriving_carries _ _ _ 2))
  refine ends.imp ?_
  intro d' _ answer
  obtain ⟨pba, answered, accepted⟩ := answer
  exact ⟨pba, answered, accepted kept _ _ (arriving_carries _ _ _ _)⟩

end Runs

end Daemon

end OaiPmip
