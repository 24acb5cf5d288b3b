import OaiPmip.Retrout

/-!
# What return routability keeps

The table of tests and the binding update list refer to each other: the home test
of an address goes with its entry, whose home index and care-of address it has,
and a test that is over has a token.  The tokens are whatever the tests received
bring; an update is made of tokens.  A function that has an entry in hand is said
to keep this of the list with that entry in its place.
-/

set_option autoImplicit false

namespace OaiPmip.Retrout

open OaiPmip.Bul (BulType Callback)

/-- `Tok addr bit index token sent`: a token for the address, that answers an init
sent at the time. -/
abbrev Tokens := In6Addr → UInt8 → UInt16 → List UInt8 → Timespec → Prop

def HomeToken (Tok : Tokens) (bule : Bulentry) (token : List UInt8) : Prop :=
  ∃ sent, Tok bule.hoa 0 bule.hoNi token sent

structure ByHome (h : Host) (Tok : Tokens) (bule : Bulentry) : Prop where
  key : ∃ token, HomeToken Tok bule token ∧ bule.kbm = h.rrMnCalcKbm token none

def ByBoth (h : Host) (Tok : Tokens) (bule : Bulentry) (coNi : UInt16) : Prop :=
  ∃ home careOf, HomeToken Tok bule home ∧ (∃ sent, Tok bule.coa 1 coNi careOf sent) ∧
    bule.kbm = h.rrMnCalcKbm home (some careOf)

def Keyed (h : Host) (Tok : Tokens) (u : Update) : Prop :=
  match u.origin with
  | .mnRecvHot => if u.entry.dereg then ByHome h Tok u.entry
      else ByBoth h Tok u.entry u.entry.coNi
  | .mnRecvCot => ByBoth h Tok u.entry u.entry.coNi
  | .mnRrRefresh => if u.entry.dereg then ByHome h Tok u.entry
      else ∃ coNi, ByBoth h Tok u.entry coNi
  | .resend => True

structure BuleOk (h : Host) (hoa : In6Addr) (bule : Bulentry) : Prop where
  hoa : bule.hoa = hoa
  peer : bule.peerAddr = h.peerAddr
  flags : bule.flags = 0 ∨ bule.flags = ip6MhBuAck

/-- An update as it was sent; a deregistration has no lifetime. -/
structure UpdateOk (h : Host) (Tok : Tokens) (u : Update) : Prop where
  entry : BuleOk h u.entry.hoa u.entry
  keyed : Keyed h Tok u
  dereg : u.origin ≠ .resend → u.entry.dereg = true → u.entry.lifetime = ⟨0, 0⟩

/-- An entry under test.  `moved` is the home address whose entry is about to tell
its care-of address, `busy` the address whose test is being received. -/
structure RreOk (Tok : Tokens) (moved busy : Option In6Addr)
    (bul : In6Addr → Option Bulentry) (inits : List TestInit) (addr : In6Addr)
    (rre : Rrlentry) : Prop where
  own1 : rre.own1 = addr
  init : ⟨rre.type, addr, rre.cookie, rre.lastsent⟩ ∈ inits
  token : rre.wait = false → Tok addr rre.type.bit rre.index rre.kgenToken rre.lastsent
  settled : busy ≠ some addr → rre.wait = false →
    rre.callback ≠ some .tiResend ∧ rre.expires = tsadd maxTokenLifetime rre.lastsent
  refresh : (rre.callback = some .homekgtRefresh → rre.type = .hotEntry) ∧
    (rre.callback = some .careofkgtRefresh → rre.type = .cotEntry)
  hot : rre.type = .hotEntry → ∃ bule, bul addr = some bule ∧ bule.type = .bulEntry ∧
    (rre.wait = false → bule.hoNi = rre.index) ∧ (moved ≠ some addr → rre.own2 = bule.coa)

/-- Every init has a cookie of its own; those after the `past` ones were sent `now`.
No entry waits without an init, for there is memory for the messages. -/
structure Log (h : Host) (past : List TestInit) (now : Timespec) (inits : List TestInit)
    (drawn : Nat) : Prop where
  creates : h.Supplies .mhCreate
  draws : inits.map TestInit.cookie = (List.range drawn).reverse.map h.cookies
  grows : ∃ new, inits = new ++ past ∧ ∀ init ∈ new, init.sentAt = now

structure Ok (h : Host) (Tok : Tokens) (past : List TestInit) (now : Timespec)
    (moved busy : Option In6Addr) (bul : In6Addr → Option Bulentry) (s : Mn) : Prop where
  tests : ∀ addr rre, s.rrl addr = some rre → RreOk Tok moved busy bul s.inits addr rre
  bules : ∀ hoa bule, bul hoa = some bule → BuleOk h hoa bule
  log : Log h past now s.inits s.drawn
  updates : ∀ u ∈ s.updates, UpdateOk h Tok u

def inHand (s : Mn) (bule : Bulentry) : In6Addr → Option Bulentry :=
  Function.update s.bul bule.hoa (some bule)

theorem inHand_self (s : Mn) (bule : Bulentry) : inHand s bule bule.hoa = some bule :=
  Function.update_self ..

theorem inHand_of_mem {s : Mn} {hoa : In6Addr} {bule : Bulentry} (here : s.bul hoa = some bule)
    (isHoa : bule.hoa = hoa) : inHand s bule = s.bul := by
  rw [inHand, isHoa, ← here, Function.update_eq_self]

structure Same (bule bule' : Bulentry) : Prop where
  hoa : bule'.hoa = bule.hoa
  peer : bule'.peerAddr = bule.peerAddr
  flags : bule'.flags = bule.flags
  type : bule'.type = bule.type
  hoNi : bule'.hoNi = bule.hoNi
  coa : bule'.coa = bule.coa

abbrev Kept (h : Host) (Tok : Tokens) (past : List TestInit) (now : Timespec) (s : Mn) : Prop :=
  Ok h Tok past now none none s.bul s

section Kept
variable {h : Host} {Tok : Tokens} {past : List TestInit} {now : Timespec}
  {moved busy : Option In6Addr} {s : Mn}
  {bul : In6Addr → Option Bulentry}

theorem Keyed.imp {Tok' : Tokens} {bule bule' : Bulentry} {origin : Origin}
    (keyed : Keyed h Tok ⟨bule, origin⟩) (dereg : bule'.dereg = bule.dereg)
    (coNi : bule'.coNi = bule.coNi) (alone : ByHome h Tok bule → ByHome h Tok' bule')
    (both : ∀ coNi, ByBoth h Tok bule coNi → ByBoth h Tok' bule' coNi) :
    Keyed h Tok' ⟨bule', origin⟩ := by
  cases origin with
  | mnRecvHot =>
      simp only [Keyed, dereg, coNi] at keyed ⊢
      by_cases isDereg : bule.dereg = true
      · rw [if_pos isDereg] at keyed ⊢
        exact alone keyed
      · rw [if_neg isDereg] at keyed ⊢
        exact both _ keyed
  | mnRecvCot =>
      simp only [Keyed, coNi] at keyed ⊢
      exact both _ keyed
  | mnRrRefresh =>
      simp only [Keyed, dereg] at keyed ⊢
      by_cases isDereg : bule.dereg = true
      · rw [if_pos isDereg] at keyed ⊢
        exact alone keyed
      · rw [if_neg isDereg] at keyed ⊢
        obtain ⟨coNi, made⟩ := keyed
        exact ⟨coNi, both coNi made⟩
  | resend => trivial

theorem Ok.init (creates : h.Supplies .mhCreate) :
    Ok h Tok [] now moved busy Mn.init.bul Mn.init where
  tests := fun _ _ here => by cases here
  bules := fun _ _ here => by cases here
  log := ⟨creates, rfl, [], rfl, fun _ member => by cases member⟩
  updates := fun _ sent => by cases sent

theorem Ok.mono {Tok' : Tokens} (ok : Ok h Tok past now moved busy bul s)
    (more : ∀ addr bit index token sent, Tok addr bit index token sent →
      Tok' addr bit index token sent) : Ok h Tok' past now moved busy bul s := by
  refine ⟨?_, ok.bules, ok.log, ?_⟩
  · intro addr rre here
    have old := ok.tests addr rre here
    exact ⟨old.own1, old.init, fun ended => more _ _ _ _ _ (old.token ended), old.settled,
      old.refresh, old.hot⟩
  · intro u sent
    obtain ⟨entry, keyed, dereg⟩ := ok.updates u sent
    refine ⟨entry, keyed.imp rfl rfl ?_ ?_, dereg⟩
    · intro ⟨token, ⟨sent, isHome⟩, key⟩
      exact ⟨token, ⟨sent, more _ _ _ _ _ isHome⟩, key⟩
    · intro coNi ⟨home, careOf, ⟨sent, isHome⟩, ⟨sent', isCareOf⟩, key⟩
      exact ⟨home, careOf, ⟨sent, more _ _ _ _ _ isHome⟩, ⟨sent', more _ _ _ _ _ isCareOf⟩, key⟩

theorem Ok.relax {moved' busy' : Option In6Addr} (ok : Ok h Tok past now moved busy bul s)
    (others : ∀ addr rre, s.rrl addr = some rre →
      (moved' ≠ some addr → moved ≠ some addr) ∧ (busy' ≠ some addr → busy ≠ some addr)) :
    Ok h Tok past now moved' busy' bul s := by
  refine ⟨?_, ok.bules, ok.log, ok.updates⟩
  intro addr rre here
  have old := ok.tests addr rre here
  obtain ⟨stays, idle⟩ := others addr rre here
  refine ⟨old.own1, old.init, old.token, fun free => old.settled (idle free), old.refresh, ?_⟩
  intro isHot
  obtain ⟨bule, isHere, type, hoNi, coa⟩ := old.hot isHot
  exact ⟨bule, isHere, type, hoNi, fun still => coa (stays still)⟩

theorem Ok.rrlDelete (ok : Ok h Tok past now moved busy bul s) (rre : Rrlentry) :
    Ok h Tok past now moved busy bul (rrlDelete s rre) := by
  refine ⟨?_, ok.bules, ok.log, ok.updates⟩
  intro addr other here
  by_cases same : addr = rre.own1
  · subst same
    simp only [Retrout.rrlDelete, Function.update_self] at here
    cases here
  · simp only [Retrout.rrlDelete, Function.update_of_ne same] at here
    exact ok.tests addr other here

theorem rrl_rrlDelete {rre other : Rrlentry} {addr : In6Addr}
    (here : (rrlDelete s rre).rrl addr = some other) : addr ≠ rre.own1 := by
  rintro rfl
  simp only [Retrout.rrlDelete, Function.update_self] at here
  cases here

theorem putRre_rrlDelete {rre rre' : Rrlentry} (same : rre'.own1 = rre.own1) :
    (rrlDelete s rre).putRre rre' = s.putRre rre' := by
  simp only [Mn.putRre, Retrout.rrlDelete, same, Function.update_idem]

theorem Ok.settleRre {moved' busy' : Option In6Addr} {rre : Rrlentry}
    (ok : Ok h Tok past now moved busy bul s)
    (good : RreOk Tok moved' busy' bul s.inits rre.own1 rre)
    (others : ∀ addr, addr ≠ rre.own1 →
      (moved' ≠ some addr → moved ≠ some addr) ∧ (busy' ≠ some addr → busy ≠ some addr)) :
    Ok h Tok past now moved' busy' bul (s.putRre rre) := by
  have left : Ok h Tok past now moved' busy' bul (Retrout.rrlDelete s rre) :=
    (ok.rrlDelete rre).relax fun addr _ here => others addr (rrl_rrlDelete here)
  rw [← putRre_rrlDelete (rfl : rre.own1 = rre.own1)]
  refine ⟨?_, left.bules, left.log, left.updates⟩
  intro addr other here
  by_cases same : addr = rre.own1
  · subst same
    simp only [Mn.putRre, Function.update_self, Option.some.injEq] at here
    subst here
    exact good
  · simp only [Mn.putRre, Function.update_of_ne same] at here
    exact left.tests addr other here

theorem Ok.putRre {rre : Rrlentry} (ok : Ok h Tok past now moved busy bul s)
    (good : RreOk Tok moved busy bul s.inits rre.own1 rre) :
    Ok h Tok past now moved busy bul (s.putRre rre) :=
  ok.settleRre good fun _ _ => ⟨id, id⟩

theorem rrlGet_eq {type : RrType} {addr : In6Addr} {rre : Rrlentry} :
    rrlGet s type addr = some rre ↔ s.rrl addr = some rre ∧ rre.type = type := by
  rw [rrlGet, Option.filter_eq_some_iff, decide_eq_true_iff]

theorem Ok.get (ok : Ok h Tok past now moved busy bul s) {type : RrType} {addr : In6Addr}
    {rre : Rrlentry} (here : rrlGet s type addr = some rre) :
    RreOk Tok moved busy bul s.inits addr rre :=
  ok.tests addr rre (rrlGet_eq.mp here).1

theorem rrlDeleteCoHoa_bul (s : Mn) (coa hoa : In6Addr) :
    (rrlDeleteCoHoa s coa hoa).bul = s.bul := by
  simp only [rrlDeleteCoHoa]
  split
  · rfl
  · split <;> rfl

theorem Ok.rrlDeleteCoHoa (ok : Ok h Tok past now moved busy bul s) (coa hoa : In6Addr) :
    Ok h Tok past now moved busy bul (rrlDeleteCoHoa s coa hoa) := by
  simp only [Retrout.rrlDeleteCoHoa]
  split
  · exact ok
  · rename_i rre here
    have old := ok.get here
    split
    · exact ok.rrlDelete _
    · refine ok.putRre ?_
      change RreOk _ _ _ _ _ rre.own1 _
      rw [old.own1]
      exact ⟨rfl, old.init, old.token, old.settled, old.refresh, old.hot⟩

def HasBule (moved : Option In6Addr) (bul : In6Addr → Option Bulentry) (rre : Rrlentry) : Prop :=
  rre.type = .hotEntry → ∃ bule, bul rre.own1 = some bule ∧ bule.type = .bulEntry ∧
    (moved ≠ some rre.own1 → rre.own2 = bule.coa)

theorem RreOk.hasBule {inits : List TestInit} {addr : In6Addr} {rre : Rrlentry}
    (good : RreOk Tok moved busy bul inits addr rre) : HasBule moved bul rre := by
  intro isHot
  obtain ⟨bule, here, type, -, coa⟩ := good.hot isHot
  rw [good.own1]
  exact ⟨bule, here, type, coa⟩

theorem mnSendTi_eq (creates : h.Supplies .mhCreate) (type : RrType) (s : Mn) (addr : In6Addr)
    (cookie : Octets 8) (now : Timespec) : mnSendTi h type s addr cookie now =
      ({ s with
        asked := s.asked + 1
        drawn := s.drawn + 1
        inits := ⟨type, addr, h.cookies s.drawn, now⟩ :: s.inits }, h.cookies s.drawn) := by
  have met : (s.ask h .mhCreate).2 = true := creates s.asked
  simp only [mnSendTi, met, if_true]
  rfl

theorem mnSendTi_bul (type : RrType) (s : Mn) (addr : In6Addr) (cookie : Octets 8)
    (now : Timespec) : (mnSendTi h type s addr cookie now).1.bul = s.bul := by
  simp only [mnSendTi]
  split <;> rfl

theorem Ok.sent (ok : Ok h Tok past now moved busy bul s) {type : RrType}
    {rre : Rrlentry} (isType : rre.type = type) (has : HasBule moved bul rre)
    (waits : rre.wait = true) (isLastsent : rre.lastsent = now)
    (resends : rre.callback = some .tiResend) :
    Ok h Tok past now moved busy bul ((mnSendTi h type s rre.own1 rre.cookie now).1.putRre
      { rre with cookie := (mnSendTi h type s rre.own1 rre.cookie now).2 }) := by
  rw [mnSendTi_eq ok.log.creates]
  have grows : Ok h Tok past now moved busy bul
      { s with
        asked := s.asked + 1
        drawn := s.drawn + 1
        inits := ⟨type, rre.own1, h.cookies s.drawn, now⟩ :: s.inits } := by
    refine ⟨?_, ok.bules, ?_, ok.updates⟩
    · intro addr other here
      have old := ok.tests addr other here
      exact ⟨old.own1, List.mem_cons_of_mem _ old.init, old.token, old.settled, old.refresh,
        old.hot⟩
    · constructor
      · exact ok.log.creates
      · simp only [List.map_cons, ok.log.draws, List.range_succ, List.reverse_append,
          List.reverse_singleton, List.singleton_append]
      · obtain ⟨new, isLog, sentNow⟩ := ok.log.grows
        refine ⟨⟨type, rre.own1, h.cookies s.drawn, now⟩ :: new, ?_, ?_⟩
        · simp only [isLog, List.cons_append]
        · intro init member
          rcases List.mem_cons.mp member with rfl | earlier
          · rfl
          · exact sentNow init earlier
  refine grows.putRre ?_
  subst isLastsent isType
  constructor
  · rfl
  · exact List.mem_cons_self
  · intro ended
    rw [waits] at ended
    cases ended
  · intro _ ended
    rw [waits] at ended
    cases ended
  · rw [resends]
    exact ⟨nofun, nofun⟩
  · intro isHot
    obtain ⟨bule, here, type, coa⟩ := has isHot
    refine ⟨bule, here, type, ?_, coa⟩
    intro ended
    rw [waits] at ended
    cases ended

theorem Ok.startHot (ok : Ok h Tok past now moved busy bul s) {rre : Rrlentry}
    (has : HasBule moved bul rre) (isHot : rre.type = .hotEntry) :
    Ok h Tok past now moved busy bul (startHot h s now rre) :=
  @Ok.sent h Tok past now moved busy s bul ok .hotEntry (rreReset rre now) isHot has rfl rfl rfl

theorem Ok.startCot (ok : Ok h Tok past now moved busy bul s) {rre : Rrlentry}
    (isCot : rre.type = .cotEntry) : Ok h Tok past now moved busy bul (startCot h s now rre) := by
  have has : HasBule moved bul (rreReset rre now) := by
    intro isHot
    have type : (rreReset rre now).type = .cotEntry := isCot
    rw [type] at isHot
    cases isHot
  exact @Ok.sent h Tok past now moved busy s bul ok .cotEntry (rreReset rre now) isCot has rfl rfl
    rfl

def Rrlentry.resent (rre : Rrlentry) (now : Timespec) : Rrlentry :=
  { rre with
    lastsent := now
    delay := tsmin (tsadd rre.delay rre.delay) maxBindackTimeout
    resendCount := rre.resendCount + 1 }

theorem tiResend_eq (s : Mn) (now : Timespec) (rre : Rrlentry) :
    tiResend h s now rre = (mnSendTi h rre.type s rre.own1 rre.cookie now).1.putRre
      { rre.resent now with cookie := (mnSendTi h rre.type s rre.own1 rre.cookie now).2 } := by
  simp only [Retrout.tiResend, Rrlentry.resent]
  cases isType : rre.type <;> rfl

theorem Ok.tiResend (ok : Ok h Tok past now moved busy bul s) {addr : In6Addr} {rre : Rrlentry}
    (here : s.rrl addr = some rre) (waits : rre.wait = true)
    (resends : rre.callback = some .tiResend) :
    Ok h Tok past now moved busy bul (tiResend h s now rre) := by
  have old := ok.tests addr rre here
  rw [tiResend_eq]
  exact @Ok.sent h Tok past now moved busy s bul ok rre.type (rre.resent now) rfl old.hasBule waits
    rfl resends

theorem Ok.rrlTimer (ok : Ok h Tok past now moved none bul s) {addr : In6Addr} {rre : Rrlentry}
    (here : s.rrl addr = some rre) (used : In6Addr → Bool) :
    Ok h Tok past now moved none bul (rrlTimer h s now used rre) := by
  have old := ok.tests addr rre here
  simp only [Retrout.rrlTimer]
  split
  · rename_i resends
    refine ok.tiResend here ?_ resends
    cases waits : rre.wait with
    | true => rfl
    | false => exact absurd resends (old.settled (by simp) waits).1
  · rename_i refresh
    simp only [mnRrHomekgtRefresh]
    split
    · exact ok.startHot old.hasBule (old.refresh.1 refresh)
    · exact ok.rrlDelete rre
  · rename_i refresh
    simp only [mnRrCareofkgtRefresh]
    split
    · exact ok.startCot (old.refresh.2 refresh)
    · exact ok.rrlDelete rre
  · exact ok

theorem rrlTimer_bul (s : Mn) (now : Timespec) (used : In6Addr → Bool) (rre : Rrlentry) :
    (rrlTimer h s now used rre).bul = s.bul := by
  simp only [Retrout.rrlTimer]
  split
  · rw [tiResend_eq]
    exact mnSendTi_bul ..
  · simp only [mnRrHomekgtRefresh]
    split
    · exact mnSendTi_bul ..
    · rfl
  · simp only [mnRrCareofkgtRefresh]
    split
    · exact mnSendTi_bul ..
    · rfl
  · rfl

/-! ## The entry in hand -/

theorem Ok.setBule {bule : Bulentry} (ok : Ok h Tok past now moved busy bul s)
    (good : BuleOk h bule.hoa bule)
    (hot : ∀ rre, s.rrl bule.hoa = some rre → rre.type = .hotEntry → bule.type = .bulEntry ∧
      (rre.wait = false → bule.hoNi = rre.index) ∧
      (moved ≠ some bule.hoa → rre.own2 = bule.coa)) :
    Ok h Tok past now moved busy (Function.update bul bule.hoa (some bule)) s := by
  refine ⟨?_, ?_, ok.log, ok.updates⟩
  · intro addr rre here
    have old := ok.tests addr rre here
    refine ⟨old.own1, old.init, old.token, old.settled, old.refresh, ?_⟩
    intro isHot
    by_cases same : addr = bule.hoa
    · subst same
      exact ⟨bule, Function.update_self .., hot rre here isHot⟩
    · rw [Function.update_of_ne same]
      exact old.hot isHot
  · intro hoa other here
    by_cases same : hoa = bule.hoa
    · subst same
      rw [Function.update_self, Option.some.injEq] at here
      exact here ▸ good
    · rw [Function.update_of_ne same] at here
      exact ok.bules hoa other here

theorem Ok.clearBule {hoa : In6Addr} (ok : Ok h Tok past now (some hoa) busy bul s)
    (absent : rrlGet s .hotEntry hoa = none) :
    Ok h Tok past now none busy (Function.update bul hoa none) s := by
  refine ⟨?_, ?_, ok.log, ok.updates⟩
  · intro addr rre here
    have old := ok.tests addr rre here
    refine ⟨old.own1, old.init, old.token, old.settled, old.refresh, ?_⟩
    intro isHot
    have other : addr ≠ hoa := by
      rintro rfl
      rw [rrlGet_eq.mpr ⟨here, isHot⟩] at absent
      cases absent
    obtain ⟨bule, isHere, type, hoNi, coa⟩ := old.hot isHot
    rw [Function.update_of_ne other]
    exact ⟨bule, isHere, type, hoNi, fun _ => coa fun same => other (Option.some.inj same).symm⟩
  · intro addr other here
    by_cases same : addr = hoa
    · subst same
      rw [Function.update_self] at here
      cases here
    · rw [Function.update_of_ne same] at here
      exact ok.bules addr other here

theorem Ok.change {bule bule' : Bulentry} (ok : Ok h Tok past now moved busy bul s)
    (here : bul bule.hoa = some bule) (same : Same bule bule') :
    Ok h Tok past now moved busy (Function.update bul bule.hoa (some bule')) s := by
  have good := ok.bules _ _ here
  rw [← same.hoa]
  refine ok.setBule ⟨rfl, same.peer.trans good.peer, ?_⟩ ?_
  · rw [same.flags]
    exact good.flags
  · intro rre isHere isHot
    rw [same.hoa] at isHere
    obtain ⟨other, isOther, type, hoNi, coa⟩ := (ok.tests _ rre isHere).hot isHot
    rw [here, Option.some.injEq] at isOther
    subst isOther
    rw [same.type, same.hoNi, same.coa, same.hoa]
    exact ⟨type, hoNi, coa⟩

theorem Ok.moving (ok : Ok h Tok past now none busy bul s) (hoa : In6Addr) :
    Ok h Tok past now (some hoa) busy bul s :=
  ok.relax fun _ _ _ => ⟨fun _ => nofun, id⟩

theorem Ok.mnRrDeleteBule (ok : Ok h Tok past now moved busy bul s) (e : Bulentry) :
    Ok h Tok past now moved busy bul (mnRrDeleteBule s e) ∧
      rrlGet (Retrout.mnRrDeleteBule s e) .hotEntry e.hoa = none := by
  simp only [Retrout.mnRrDeleteBule]
  have left : Ok h Tok past now moved busy bul
      (if e.coaChanged > 0 then Retrout.rrlDeleteCoHoa s e.lastCoa e.hoa else s) := by
    split
    · exact ok.rrlDeleteCoHoa _ _
    · exact ok
  generalize (if e.coaChanged > 0 then Retrout.rrlDeleteCoHoa s e.lastCoa e.hoa else s) = s'
    at left ⊢
  split
  · rename_i absent
    exact ⟨left, absent⟩
  · rename_i rreHo here
    refine ⟨left.rrlDelete _, ?_⟩
    simp only [rrlGet, Retrout.rrlDelete, (left.get here).own1, Function.update_self,
      Option.filter_none]

theorem mnRrDeleteBule_bul (s : Mn) (e : Bulentry) : (mnRrDeleteBule s e).bul = s.bul := by
  simp only [Retrout.mnRrDeleteBule]
  split
  · split
    · exact rrlDeleteCoHoa_bul ..
    · rfl
  · split
    · exact rrlDeleteCoHoa_bul ..
    · rfl

theorem Ok.bulDelete {bule : Bulentry}
    (ok : Ok h Tok past now (some bule.hoa) busy (inHand s bule) s) :
    Ok h Tok past now none busy (bulDelete s bule).bul (bulDelete s bule) := by
  have cleared : ∀ s', Ok h Tok past now (some bule.hoa) busy (inHand s bule) s' →
      rrlGet s' .hotEntry bule.hoa = none →
      Ok h Tok past now none busy (Function.update s.bul bule.hoa none) s' := by
    intro s' kept absent
    have gone := kept.clearBule absent
    rwa [inHand, Function.update_idem] at gone
  have here : Ok h Tok past now (some bule.hoa) busy (inHand s bule)
      { s with bul := Function.update s.bul bule.hoa none } :=
    ⟨ok.tests, ok.bules, ok.log, ok.updates⟩
  simp only [Retrout.bulDelete]
  by_cases isBul : bule.type = .bulEntry
  · have type : (if bule.hoa = bule.coa then bule else
        { bule with lastCoa := bule.coa, coa := bule.hoa, coaChanged := 1 }).type = .bulEntry := by
      split <;> exact isBul
    have hoa : (if bule.hoa = bule.coa then bule else
        { bule with lastCoa := bule.coa, coa := bule.hoa, coaChanged := 1 }).hoa = bule.hoa := by
      split <;> rfl
    rw [if_pos type]
    generalize (if bule.hoa = bule.coa then bule else
        { bule with lastCoa := bule.coa, coa := bule.hoa, coaChanged := 1 }) = e at hoa ⊢
    obtain ⟨kept, absent⟩ := here.mnRrDeleteBule e
    rw [hoa] at absent
    rw [mnRrDeleteBule_bul]
    exact cleared _ kept absent
  · have type : ¬(if bule.hoa = bule.coa then bule else
        { bule with lastCoa := bule.coa, coa := bule.hoa, coaChanged := 1 }).type = .bulEntry := by
      split <;> exact isBul
    rw [if_neg type]
    refine cleared _ here ?_
    cases absent : rrlGet s .hotEntry bule.hoa with
    | none => exact absent
    | some rre =>
        obtain ⟨isHere, isHot⟩ := rrlGet_eq.mp absent
        obtain ⟨other, isOther, isType, -⟩ := (ok.tests _ rre isHere).hot isHot
        rw [inHand_self, Option.some.injEq] at isOther
        exact absurd (isOther ▸ isType) isBul

theorem rrlGet_putRre (s : Mn) (rre : Rrlentry) :
    rrlGet (s.putRre rre) rre.type rre.own1 = some rre := by
  simp only [rrlGet, Mn.putRre, Function.update_self, Option.filter_some, decide_true, if_true]

theorem rrlGet_rrl {s s' : Mn} (same : s'.rrl = s.rrl) (type : RrType) (addr : In6Addr) :
    rrlGet s' type addr = rrlGet s type addr := by
  simp only [rrlGet, same]

theorem Ok.ask (ok : Ok h Tok past now moved busy bul s) (what : Alloc) :
    Ok h Tok past now moved busy bul (s.ask h what).1 :=
  ⟨ok.tests, ok.bules, ok.log, ok.updates⟩

theorem putRre_putRre {rre rre' : Rrlentry} (same : rre'.own1 = rre.own1) :
    (s.putRre rre).putRre rre' = s.putRre rre' := by
  simp only [Mn.putRre, same, Function.update_idem]

theorem mnSendTi_putRre (type : RrType) (s : Mn) (rre : Rrlentry) (addr : In6Addr)
    (cookie : Octets 8) (now : Timespec) : mnSendTi h type (s.putRre rre) addr cookie now =
      ((mnSendTi h type s addr cookie now).1.putRre rre,
        (mnSendTi h type s addr cookie now).2) := by
  have same : (s.putRre rre).ask h .mhCreate =
      ((s.ask h .mhCreate).1.putRre rre, (s.ask h .mhCreate).2) := rfl
  simp only [mnSendTi, same]
  split <;> rfl

theorem startHot_putRre {rre rre' : Rrlentry} (same : rre'.own1 = rre.own1) (now : Timespec) :
    startHot h (s.putRre rre) now rre' = startHot h s now rre' := by
  simp only [Retrout.startHot, mnSendHoti, mnSendTi_putRre]
  exact putRre_putRre same

theorem startCot_putRre {rre rre' : Rrlentry} (same : rre'.own1 = rre.own1) (now : Timespec) :
    startCot h (s.putRre rre) now rre' = startCot h s now rre' := by
  simp only [Retrout.startCot, mnSendCoti, mnSendTi_putRre]
  exact putRre_putRre same

theorem startHot_bul (s : Mn) (now : Timespec) (rre : Rrlentry) :
    (startHot h s now rre).bul = s.bul := mnSendTi_bul ..

theorem startCot_bul (s : Mn) (now : Timespec) (rre : Rrlentry) :
    (startCot h s now rre).bul = s.bul := mnSendTi_bul ..

theorem over_of_valid {rre : Rrlentry} (valid : mnRrTokenValid rre now = true) :
    rre.wait = false := by
  simp only [mnRrTokenValid, Bool.and_eq_true, Bool.not_eq_true'] at valid
  exact valid.1

theorem rreCreate_ok {type : RrType} {own1 own2 : In6Addr} {s' : Mn} {made : Option Rrlentry}
    (taken : rreCreate h s type own1 own2 = .ok (s', made)) :
    s.rrl own1 = none ∧ (made = none ∧ s' = (s.ask h .rreCreate).1 ∨
      ∃ rre, made = some rre ∧ rre.own1 = own1 ∧ rre.own2 = own2 ∧ rre.type = type ∧
        rre.homeAddrs = (if type = .cotEntry then [own2] else []) ∧
        s' = (s.ask h .rreCreate).1.putRre rre) := by
  simp only [rreCreate] at taken
  split at taken
  · cases taken
  · rename_i free
    refine ⟨free, ?_⟩
    split at taken
    · cases taken
      exact Or.inr ⟨_, rfl, rfl, rfl, rfl, rfl, rfl⟩
    · cases taken
      exact Or.inl ⟨rfl, rfl⟩

theorem Ok.condStartHot {bule : Bulentry} {s' : Mn} {uncond : Bool} {n : Nat}
    (ok : Ok h Tok past now (some bule.hoa) busy bul s) (here : bul bule.hoa = some bule)
    (taken : mnRrCondStartHot h s now bule uncond = .ok (s', n)) :
    Ok h Tok past now none busy bul s' ∧ s'.bul = s.bul ∧
      (n = 0 → ∀ rre, rrlGet s' .hotEntry bule.hoa = some rre →
        mnRrTokenValid rre now = true) := by
  have others : ∀ addr, addr ≠ bule.hoa →
      ((none : Option In6Addr) ≠ some addr → some bule.hoa ≠ some addr) ∧
        (busy ≠ some addr → busy ≠ some addr) :=
    fun addr other => ⟨fun _ same => other (Option.some.inj same).symm, id⟩
  simp only [mnRrCondStartHot] at taken
  split at taken
  · cases taken
  · rename_i type
    have isBul : bule.type = .bulEntry := not_not.mp type
    split at taken
    · rename_i rre found
      have old := ok.get found
      have isHot := (rrlGet_eq.mp found).2
      have own := old.own1
      have told : Ok h Tok past now none busy bul (s.putRre { rre with own2 := bule.coa }) := by
        refine ok.settleRre ?_ (own.symm ▸ others)
        change RreOk _ _ _ _ _ rre.own1 _
        refine ⟨rfl, own.symm ▸ old.init, own.symm ▸ old.token, own.symm ▸ old.settled,
          old.refresh, ?_⟩
        intro _
        obtain ⟨other, isHere, type, hoNi, -⟩ := old.hot isHot
        rw [here, Option.some.injEq] at isHere
        subst isHere
        rw [own]
        exact ⟨bule, here, type, hoNi, fun _ => rfl⟩
      split at taken
      · rename_i valid
        cases taken
        simp only [Bool.and_eq_true] at valid
        refine ⟨told, rfl, fun _ there isThere => ?_⟩
        have put := rrlGet_putRre s { rre with own2 := bule.coa }
        simp only [isHot, own] at put isThere
        rw [put, Option.some.injEq] at isThere
        exact isThere ▸ valid.2
      · split at taken
        · cases taken
          exact ⟨told, rfl, nofun⟩
        · cases taken
          refine ⟨told.startHot ?_ isHot, startHot_bul .., nofun⟩
          intro _
          change ∃ other, bul rre.own1 = some other ∧ _
          rw [own]
          exact ⟨bule, here, isBul, fun _ => rfl⟩
    · rename_i absent
      have settled : s.rrl bule.hoa = none → Ok h Tok past now none busy bul
          (s.ask h .rreCreate).1 := by
        intro free
        refine (ok.relax fun addr other isHere => others addr ?_).ask _
        rintro rfl
        rw [free] at isHere
        cases isHere
      split at taken
      · cases taken
      · rename_i s₁ created
        cases taken
        obtain ⟨free, ⟨-, rfl⟩ | ⟨rre, some_, -⟩⟩ := rreCreate_ok created
        · refine ⟨settled free, rfl, fun _ rre isThere => ?_⟩
          have gone : rrlGet s .hotEntry bule.hoa = some rre := isThere
          rw [absent] at gone
          cases gone
        · cases some_
      · rename_i s₁ rre created
        cases taken
        obtain ⟨free, ⟨none_, -⟩ | ⟨_, made, isHoa, isCoa, isHot, -, rfl⟩⟩ :=
          rreCreate_ok created
        · cases none_
        · cases made
          rw [startHot_putRre rfl]
          refine ⟨(settled free).startHot ?_ isHot, startHot_bul .., nofun⟩
          intro _
          rw [isHoa]
          exact ⟨bule, here, isBul, fun _ => isCoa⟩

theorem Ok.addAndStartCot {rre : Rrlentry} (ok : Ok h Tok past now moved busy bul s)
    (isCot : rre.type = .cotEntry) (hoa : In6Addr) :
    Ok h Tok past now moved busy bul (addAndStartCot h s now rre hoa).1 ∧
      (addAndStartCot h s now rre hoa).1.bul = s.bul ∧
      ((addAndStartCot h s now rre hoa).2 = 0 →
        (addAndStartCot h s now rre hoa).1.rrl = s.rrl ∧
          rre.homeAddrs.contains hoa = false ∧ ¬h.Supplies .coAddHoa) := by
  simp only [Retrout.addAndStartCot, rreCoAddHoa]
  by_cases there : rre.homeAddrs.contains hoa = true
  · simp only [if_pos there]
    exact ⟨ok.startCot isCot, startCot_bul .., nofun⟩
  · simp only [if_neg there]
    cases met : (s.ask h .coAddHoa).2 with
    | true => exact ⟨(ok.ask _).startCot isCot, startCot_bul .., nofun⟩
    | false =>
        refine ⟨ok.ask .coAddHoa, rfl, fun _ => ⟨rfl, Bool.eq_false_of_not_eq_true there, ?_⟩⟩
        intro supplies
        have always : (s.ask h .coAddHoa).2 = true := supplies s.asked
        rw [met] at always
        cases always

/-- Where no care-of test is sent the tests stay as they are.  One that is there is
over then, and valid if there was memory for its home address. -/
theorem Ok.condStartCot {bule : Bulentry} {s' : Mn} {uncond : Bool} {n : Nat}
    (ok : Ok h Tok past now moved busy bul s)
    (taken : mnRrCondStartCot h s now bule uncond = .ok (s', n)) :
    Ok h Tok past now moved busy bul s' ∧ s'.bul = s.bul ∧
      (n = 0 → s'.rrl = s.rrl ∧ ∀ rre, rrlGet s .cotEntry bule.coa = some rre →
        rre.wait = false ∧ (h.Supplies .coAddHoa → mnRrTokenValid rre now = true)) := by
  simp only [mnRrCondStartCot] at taken
  split at taken
  · cases taken
  · split at taken
    · rename_i rre found
      split at taken
      · rename_i valid
        cases taken
        simp only [Bool.and_eq_true] at valid
        refine ⟨ok, rfl, fun _ => ⟨rfl, fun other isOther => ?_⟩⟩
        rw [found, Option.some.injEq] at isOther
        subst isOther
        exact ⟨over_of_valid valid.2, fun _ => valid.2⟩
      · split at taken
        · cases taken
          exact ⟨ok, rfl, nofun⟩
        · rename_i ended
          obtain ⟨kept, frame, unmet⟩ := ok.addAndStartCot (rrlGet_eq.mp found).2 bule.hoa
          rw [Except.ok.injEq] at taken
          rw [taken] at kept frame unmet
          refine ⟨kept, frame, fun none => ⟨(unmet none).1, fun other isOther => ?_⟩⟩
          rw [found, Option.some.injEq] at isOther
          subst isOther
          exact ⟨Bool.eq_false_of_not_eq_true ended, fun supplies => absurd supplies (unmet none).2.2⟩
    · rename_i absent
      split at taken
      · cases taken
      · rename_i s₁ created
        cases taken
        obtain ⟨-, ⟨-, rfl⟩ | ⟨rre, some_, -⟩⟩ := rreCreate_ok created
        · refine ⟨ok.ask _, rfl, fun _ => ⟨rfl, fun rre isThere => ?_⟩⟩
          rw [absent] at isThere
          cases isThere
        · cases some_
      · rename_i s₁ rre created
        obtain ⟨-, ⟨none_, -⟩ | ⟨_, made, -, -, isCot, homeAddrs, rfl⟩⟩ :=
          rreCreate_ok created
        · cases none_
        · cases made
          have there : rre.homeAddrs.contains bule.hoa = true := by
            rw [homeAddrs, if_pos rfl]
            simp
          simp only [Retrout.addAndStartCot, rreCoAddHoa, if_pos there] at taken
          cases taken
          rw [startCot_putRre rfl]
          exact ⟨(ok.ask _).startCot isCot, startCot_bul .., nofun⟩

theorem Ok.forceRefresh {bule bule' : Bulentry} {s' : Mn}
    (ok : Ok h Tok past now none busy bul s) (here : bul bule.hoa = some bule)
    (taken : mnRrForceRefresh h s now bule = .ok (s', bule')) :
    Ok h Tok past now none busy bul s' ∧ s'.bul = s.bul ∧
      bule' = { bule with state := .started } := by
  simp only [mnRrForceRefresh] at taken
  split at taken
  · cases taken
  · rename_i s₁ hot started
    have first : Ok h Tok past now none busy bul s₁ ∧ s₁.bul = s.bul := by
      split at started
      · obtain ⟨kept, same, -⟩ := (ok.moving bule.hoa).condStartHot here started
        exact ⟨kept, same⟩
      · cases started
        exact ⟨ok, rfl⟩
    split at taken
    · cases taken
    · rename_i s₂ cot started'
      cases taken
      split at started'
      · obtain ⟨kept, same, -⟩ := first.1.condStartCot started'
        exact ⟨kept, same.trans first.2, rfl⟩
      · cases started'
        exact ⟨first.1, first.2, rfl⟩

/-- The key is made of tokens that the tests of the entry's addresses have.  They are
valid, the care-of token if there is memory for a home address more. -/
def AtHand (h : Host) (s : Mn) (now : Timespec) (bule : Bulentry) : Prop :=
  ∃ rreHo, rrlGet s .hotEntry bule.hoa = some rreHo ∧ mnRrTokenValid rreHo now = true ∧
    if bule.dereg then bule.kbm = h.rrMnCalcKbm rreHo.kgenToken none
    else ∃ rreCo, rrlGet s .cotEntry bule.coa = some rreCo ∧ rreCo.wait = false ∧
      (h.Supplies .coAddHoa → mnRrTokenValid rreCo now = true) ∧
      bule.kbm = h.rrMnCalcKbm rreHo.kgenToken (some rreCo.kgenToken)

theorem keyAtHand_eq {bule bule' : Bulentry} {s' : Mn}
    (hot : ∀ rre, rrlGet s .hotEntry bule.hoa = some rre → mnRrTokenValid rre now = true)
    (cot : bule.dereg = false → ∀ rre, rrlGet s .cotEntry bule.coa = some rre →
      rre.wait = false ∧ (h.Supplies .coAddHoa → mnRrTokenValid rre now = true))
    (taken : keyAtHand h s bule = .ok (s', bule')) :
    s' = s ∧ Same bule bule' ∧ bule'.dereg = bule.dereg ∧ AtHand h s now bule' := by
  simp only [Retrout.keyAtHand] at taken
  split at taken
  · cases taken
  · rename_i rreHo isHot
    have validHot := hot rreHo isHot
    cases dereg : bule.dereg with
    | true =>
        rw [dereg, if_pos rfl] at taken
        cases taken
        refine ⟨rfl, ⟨rfl, rfl, rfl, rfl, rfl, rfl⟩, rfl, rreHo, isHot, validHot, ?_⟩
        rw [if_pos rfl]
    | false =>
        rw [dereg, if_neg Bool.false_ne_true] at taken
        split at taken
        · cases taken
        · rename_i rreCo isCot
          cases taken
          refine ⟨rfl, ⟨rfl, rfl, rfl, rfl, rfl, rfl⟩, dereg.symm ▸ rfl, rreHo, isHot, validHot, ?_⟩
          obtain ⟨ended, valid⟩ := cot dereg rreCo isCot
          rw [if_neg Bool.false_ne_true]
          exact ⟨rreCo, isCot, ended, valid, rfl⟩

theorem Ok.atHand {bule bule' : Bulentry} (ok : Ok h Tok past now moved busy bul s)
    (here : bul bule.hoa = some bule) (same : Same bule bule') (atHand : AtHand h s now bule') :
    Keyed h Tok ⟨bule', .mnRrRefresh⟩ := by
  obtain ⟨rreHo, isHot, validHot, key⟩ := atHand
  rw [same.hoa] at isHot
  have home := ok.get isHot
  obtain ⟨other, isHere, -, hoNi, -⟩ := home.hot (rrlGet_eq.mp isHot).2
  rw [here, Option.some.injEq] at isHere
  subst isHere
  have homeToken : Tok bule'.hoa 0 bule'.hoNi rreHo.kgenToken rreHo.lastsent := by
    have token := home.token (over_of_valid validHot)
    rw [(rrlGet_eq.mp isHot).2, ← hoNi (over_of_valid validHot)] at token
    rw [same.hoa, same.hoNi]
    exact token
  simp only [Keyed]
  split at key
  · rename_i dereg
    rw [if_pos dereg]
    exact ⟨rreHo.kgenToken, ⟨_, homeToken⟩, key⟩
  · rename_i notDereg
    rw [if_neg notDereg]
    obtain ⟨rreCo, isCot, ended, -, key⟩ := key
    have careOf := (ok.get isCot).token ended
    rw [(rrlGet_eq.mp isCot).2] at careOf
    exact ⟨rreCo.index, rreHo.kgenToken, rreCo.kgenToken, ⟨_, homeToken⟩, ⟨_, careOf⟩, key⟩

/-- After a refresh the entry is ready only with a key of tokens at hand. -/
theorem Ok.refresh {bule bule' : Bulentry} {s' : Mn}
    (ok : Ok h Tok past now (some bule.hoa) busy bul s) (here : bul bule.hoa = some bule)
    (taken : mnRrRefresh h s now bule = .ok (s', bule')) :
    Ok h Tok past now none busy bul s' ∧ s'.bul = s.bul ∧ Same bule bule' ∧
      bule'.dereg = bule.dereg ∧ (bule'.state = .ready → AtHand h s' now bule') := by
  simp only [mnRrRefresh] at taken
  have left : Ok h Tok past now (some bule.hoa) busy bul
      (if bule.coaChanged > 0 then Retrout.rrlDeleteCoHoa s bule.lastCoa bule.hoa else s) ∧
      (if bule.coaChanged > 0 then Retrout.rrlDeleteCoHoa s bule.lastCoa bule.hoa else s).bul =
        s.bul := by
    split
    · exact ⟨ok.rrlDeleteCoHoa _ _, rrlDeleteCoHoa_bul ..⟩
    · exact ⟨ok, rfl⟩
  generalize (if bule.coaChanged > 0 then Retrout.rrlDeleteCoHoa s bule.lastCoa bule.hoa
    else s) = s₀ at left taken
  split at taken
  · cases taken
  · rename_i s₁ hot started
    obtain ⟨first, same₁, validHot⟩ := left.1.condStartHot here started
    split at taken
    · cases taken
    · rename_i s₂ cot started'
      have second : Ok h Tok past now none busy bul s₂ ∧ s₂.bul = s₁.bul ∧
          (cot = 0 → s₂.rrl = s₁.rrl) ∧
          (cot = 0 → bule.dereg = false → ∀ rre, rrlGet s₁ .cotEntry bule.coa = some rre →
            rre.wait = false ∧ (h.Supplies .coAddHoa → mnRrTokenValid rre now = true)) := by
        cases dereg : bule.dereg with
        | true =>
            rw [dereg, if_pos rfl] at started'
            cases started'
            exact ⟨first, rfl, fun _ => rfl, fun _ => nofun⟩
        | false =>
            rw [dereg, if_neg Bool.false_ne_true] at started'
            obtain ⟨kept, same, validCot⟩ := first.condStartCot started'
            exact ⟨kept, same, fun none => (validCot none).1, fun none _ => (validCot none).2⟩
      obtain ⟨kept, same₂, unchanged, validCot⟩ := second
      have frame : s₂.bul = s.bul := same₂.trans (same₁.trans left.2)
      by_cases sent : hot ≠ 0 ∨ cot ≠ 0
      · simp only [if_pos sent, true_or, if_true] at taken
        cases taken
        exact ⟨kept, frame, ⟨rfl, rfl, rfl, rfl, rfl, rfl⟩, rfl, nofun⟩
      · obtain ⟨noHot, noCot⟩ : hot = 0 ∧ cot = 0 := by omega
        rw [if_neg sent] at taken
        split at taken
        · rename_i waits
          cases taken
          refine ⟨kept, frame, ⟨rfl, rfl, rfl, rfl, rfl, rfl⟩, rfl, ?_⟩
          intro ready
          rw [ready] at waits
          rcases waits with other | other <;> cases other
        · have valid := validHot noHot
          have careOf := validCot noCot
          simp only [← rrlGet_rrl (unchanged noCot)] at valid careOf
          obtain ⟨isSame, same, dereg, atHand⟩ := keyAtHand_eq valid careOf taken
          subst isSame
          exact ⟨kept, frame, same, dereg, fun _ => atHand⟩

/-- The entries say the same of the addresses, the indices and the key. -/
structure Alike (bule bule' : Bulentry) : Prop extends Same bule bule' where
  kbm : bule'.kbm = bule.kbm
  coNi : bule'.coNi = bule.coNi
  dereg : bule'.dereg = bule.dereg

theorem Same.trans {e e' e'' : Bulentry} (first : Same e e') (second : Same e' e'') :
    Same e e'' where
  hoa := second.hoa.trans first.hoa
  peer := second.peer.trans first.peer
  flags := second.flags.trans first.flags
  type := second.type.trans first.type
  hoNi := second.hoNi.trans first.hoNi
  coa := second.coa.trans first.coa

theorem Alike.keyed {bule bule' : Bulentry} (alike : Alike bule bule') {origin : Origin}
    (keyed : Keyed h Tok ⟨bule, origin⟩) : Keyed h Tok ⟨bule', origin⟩ := by
  refine keyed.imp alike.dereg alike.coNi ?_ ?_
  · intro ⟨made⟩
    refine ⟨?_⟩
    simp only [HomeToken, alike.hoa, alike.hoNi, alike.kbm]
    exact made
  · intro coNi made
    simp only [ByBoth, HomeToken, alike.hoa, alike.hoNi, alike.coa, alike.kbm]
    exact made

theorem Ok.hand {bule bule' : Bulentry} (ok : Ok h Tok past now moved busy (inHand s bule) s)
    (same : Same bule bule') : Ok h Tok past now moved busy (inHand s bule') s := by
  have changed := ok.change (inHand_self s bule) same
  rwa [inHand, Function.update_idem, ← same.hoa] at changed

theorem Ok.put {bule bule' : Bulentry} (ok : Ok h Tok past now moved busy (inHand s bule) s)
    (same : Same bule bule') :
    Ok h Tok past now moved busy (s.putBule bule').bul (s.putBule bule') := by
  have held := ok.hand same
  exact ⟨held.tests, held.bules, held.log, held.updates⟩

theorem Ok.drop {bule bule' : Bulentry} (ok : Ok h Tok past now none busy (inHand s bule) s)
    (same : Same bule bule') :
    Ok h Tok past now none busy (Retrout.bulDelete s bule').bul (Retrout.bulDelete s bule') :=
  ((ok.hand same).moving _).bulDelete

theorem Ok.sendBuMsg {bule : Bulentry} {origin : Origin} (ok : Ok h Tok past now moved busy bul s)
    (right : UpdateOk h Tok ⟨bule, origin⟩) :
    Ok h Tok past now moved busy bul (mnSendBuMsg s bule origin).1 := by
  refine ⟨ok.tests, ok.bules, ok.log, ?_⟩
  intro u sent
  rcases List.mem_cons.mp sent with rfl | earlier
  · exact right
  · exact ok.updates u earlier

theorem mnSendBuMsg_same (s : Mn) (bule : Bulentry) (origin : Origin) :
    Same bule (mnSendBuMsg s bule origin).2 := by
  simp only [mnSendBuMsg]
  split <;> exact ⟨rfl, rfl, rfl, rfl, rfl, rfl⟩

theorem mnBuRatelimit_alike (e : Bulentry) : Alike e (mnBuRatelimit e).2 := by
  simp only [mnBuRatelimit]
  split <;> exact ⟨⟨rfl, rfl, rfl, rfl, rfl, rfl⟩, rfl, rfl, rfl⟩

theorem mnGetRoLifetime_dereg (env : Env) (hoa : In6Addr) :
    mnGetRoLifetime env hoa true = ⟨0, 0⟩ := by
  simp only [mnGetRoLifetime, Bool.not_true, Bool.and_false, Bool.false_eq_true, if_false]

theorem Ok.sendCnBu {bule : Bulentry} {origin : Origin} {env : Env}
    (ok : Ok h Tok past now none busy (inHand s bule) s) (keyed : Keyed h Tok ⟨bule, origin⟩) :
    Ok h Tok past now none busy (mnSendCnBu h env s bule origin).bul
      (mnSendCnBu h env s bule origin) := by
  have limits := mnBuRatelimit_alike bule
  have held := ok.hand limits.toSame
  have madeOf := limits.keyed keyed
  simp only [mnSendCnBu]
  generalize (mnBuRatelimit bule).1 = limited at *
  generalize (mnBuRatelimit bule).2 = e at *
  cases limited with
  | true => exact ok.put limits.toSame
  | false =>
      rw [if_neg Bool.false_ne_true]
      generalize isNext : ({ e with
        lifetime := mnGetRoLifetime env e.hoa e.dereg
        seq := e.seq + 1
        lastsent := env.now } : Bulentry) = next
      have alike : Alike e next := by
        subst isNext
        exact ⟨⟨rfl, rfl, rfl, rfl, rfl, rfl⟩, rfl, rfl, rfl⟩
      have none : origin ≠ .resend → next.dereg = true → next.lifetime = ⟨0, 0⟩ := by
        subst isNext
        intro _ dereg
        change mnGetRoLifetime env e.hoa e.dereg = _
        rw [show e.dereg = true from dereg]
        exact mnGetRoLifetime_dereg env e.hoa
      have inNext := held.hand alike.toSame
      have entry := inNext.bules _ _ (inHand_self s next)
      have sent := inNext.sendBuMsg ⟨entry, alike.keyed madeOf, none⟩
      have same := mnSendBuMsg_same s next origin
      have frame : (mnSendBuMsg s next origin).1.bul = s.bul := rfl
      generalize (mnSendBuMsg s next origin).1 = s' at *
      generalize (mnSendBuMsg s next origin).2 = e' at *
      have inSent : Ok h Tok past now Option.none busy (inHand s' next) s' := by
        rw [inHand, frame]
        exact sent
      split
      · exact inSent.put (same.trans ⟨rfl, rfl, rfl, rfl, rfl, rfl⟩)
      · split
        · exact inSent.drop (same.trans ⟨rfl, rfl, rfl, rfl, rfl, rfl⟩)
        · exact inSent.put (same.trans ⟨rfl, rfl, rfl, rfl, rfl, rfl⟩)

end Kept

/-! ## Tests received and the other events -/

section Received
variable {h : Host} {Tok : Tokens} {past : List TestInit} {busy : Option In6Addr} {s s' : Mn}
  {env : Env} {t : Test}

theorem Ok.take (ok : Ok h Tok past env.now none busy s.bul s) {hoa : In6Addr} {bule : Bulentry}
    (here : s.bul hoa = some bule) : Ok h Tok past env.now none busy (inHand s bule) s := by
  rw [inHand_of_mem here (ok.bules hoa bule here).hoa]
  exact ok

theorem RreOk.tested {moved : Option In6Addr} {bul bul' : In6Addr → Option Bulentry}
    {inits : List TestInit} {rre : Rrlentry} (good : RreOk Tok moved busy bul' inits t.addr rre)
    (genuine : Tok t.addr rre.type.bit t.index t.keygen rre.lastsent)
    (hot : rre.type = .hotEntry → ∃ bule, bul t.addr = some bule ∧ bule.type = .bulEntry ∧
      bule.hoNi = t.index ∧ (moved ≠ some t.addr → rre.own2 = bule.coa)) :
    RreOk Tok moved (some t.addr) bul inits t.addr (rre.tested t) := by
  refine ⟨good.own1, good.init, fun _ => genuine, ?_, good.refresh, ?_⟩
  · intro idle
    exact absurd rfl idle
  · intro isHot
    obtain ⟨bule, here, type, hoNi, coa⟩ := hot isHot
    exact ⟨bule, here, type, fun _ => hoNi, coa⟩

theorem RreOk.lives {moved busy' : Option In6Addr} {bul : In6Addr → Option Bulentry}
    {inits : List TestInit} {addr : In6Addr} {rre : Rrlentry} {callback : RrCallback}
    (good : RreOk Tok moved busy bul inits addr rre)
    (refreshes : callback ≠ .tiResend ∧ (callback = .homekgtRefresh → rre.type = .hotEntry) ∧
      (callback = .careofkgtRefresh → rre.type = .cotEntry)) :
    RreOk Tok moved busy' bul inits addr (rre.lives callback) := by
  obtain ⟨goesOn, isHot, isCot⟩ := refreshes
  refine ⟨good.own1, good.init, good.token, ?_, ?_, good.hot⟩
  · intro _ _
    exact ⟨fun resends => goesOn (Option.some.inj resends), rfl⟩
  · exact ⟨fun isHome => isHot (Option.some.inj isHome),
      fun careOf => isCot (Option.some.inj careOf)⟩

theorem Ok.homeToken (ok : Ok h Tok past env.now none busy s.bul s) {hoa : In6Addr}
    {bule : Bulentry} {rreHo : Rrlentry} (here : s.bul hoa = some bule)
    (isHot : rrlGet s .hotEntry hoa = some rreHo)
    (ended : rreHo.wait = false) :
    Tok bule.hoa 0 rreHo.index rreHo.kgenToken rreHo.lastsent ∧ bule.hoNi = rreHo.index ∧
      rreHo.own2 = bule.coa := by
  have home := ok.get isHot
  have token := home.token ended
  obtain ⟨other, isHere, -, hoNi, coa⟩ := home.hot (rrlGet_eq.mp isHot).2
  rw [here, Option.some.injEq] at isHere
  subst isHere
  rw [(rrlGet_eq.mp isHot).2] at token
  rw [(ok.bules hoa bule here).hoa]
  exact ⟨token, hoNi ended, coa nofun⟩

theorem Ok.recvCotLoop {coAddr : In6Addr} {homeAddrs : List In6Addr}
    (ok : Ok h Tok past env.now none busy s.bul s) {sent : Timespec}
    (genuine : Tok coAddr 1 t.index t.keygen sent)
    (taken : recvCotLoop h env coAddr t s homeAddrs = .ok s') :
    Ok h Tok past env.now none busy s'.bul s' := by
  induction homeAddrs generalizing s with
  | nil =>
      cases taken
      exact ok
  | cons hoa rest ih =>
      simp only [Retrout.recvCotLoop] at taken
      split at taken
      · cases taken
      · rename_i rreCo isCot
        have careOf := ok.get isCot
        split at taken
        · refine ih ?_ taken
          have without : Ok h Tok past env.now none busy s.bul
              (s.putRre { rreCo with homeAddrs := rreCo.homeAddrs.erase hoa }) := by
            refine ok.putRre ?_
            change RreOk _ _ _ _ _ rreCo.own1 _
            rw [careOf.own1]
            exact ⟨rfl, careOf.init, careOf.token, careOf.settled, careOf.refresh, careOf.hot⟩
          exact without
        · rename_i bule found
          obtain ⟨here, isBule⟩ := Option.filter_eq_some_iff.mp found
          obtain ⟨isBul, isCoa⟩ := of_decide_eq_true isBule
          rw [careOf.own1] at isCoa
          have held := ok.take here
          split at taken
          · refine ih ?_ taken
            exact held.put ⟨rfl, rfl, rfl, rfl, rfl, rfl⟩
          · rename_i rreHo foundHot
            obtain ⟨isHot, isOver⟩ := Option.filter_eq_some_iff.mp foundHot
            have ended : rreHo.wait = false := by
              simpa using (of_decide_eq_true isOver).2
            obtain ⟨token, hoNi, -⟩ := ok.homeToken here isHot ended
            refine ih (Ok.sendCnBu ?_ ?_) taken
            · exact held.hand ⟨rfl, rfl, rfl, rfl, hoNi.symm, rfl⟩
            · exact ⟨_, _, ⟨_, token⟩, ⟨_, isCoa ▸ genuine⟩, rfl⟩

theorem waiting_eq {type : RrType} {rre : Rrlentry} : waiting s type t = some rre ↔
    rrlGet s type t.addr = some rre ∧ rre.cookie = t.cookie ∧ rre.wait = true := by
  rw [waiting, Option.filter_eq_some_iff, decide_eq_true_iff]

def Genuine (Tok : Tokens) (s : Mn) (t : Test) : Prop :=
  ∀ type rre, waiting s type t = some rre → t.type = type →
    Tok t.addr type.bit t.index t.keygen rre.lastsent

theorem Ok.recvCot {remoteCoa : Option In6Addr} (ok : Kept h Tok past env.now s)
    (genuine : Genuine Tok s t) (isCot : t.type = .cotEntry)
    (taken : mnRecvCot h env s t remoteCoa = .ok s') : Kept h Tok past env.now s' := by
  simp only [mnRecvCot] at taken
  split at taken
  · cases taken
    exact ok
  · split at taken
    · cases taken
      exact ok
    · rename_i rreCo waits
      have token := genuine _ rreCo waits isCot
      obtain ⟨isHere, -, -⟩ := waiting_eq.mp waits
      obtain ⟨-, type⟩ := rrlGet_eq.mp isHere
      have old := ok.get isHere
      have own : (rreCo.tested t).own1 = t.addr := old.own1
      have good : RreOk Tok none (some t.addr) s.bul s.inits t.addr (rreCo.tested t) := by
        refine old.tested (type ▸ token) ?_
        intro isHot
        rw [type] at isHot
        cases isHot
      have put : Ok h Tok past env.now none (some t.addr) s.bul (s.putRre (rreCo.tested t)) :=
        ok.settleRre (own.symm ▸ good) fun _ _ => ⟨id, fun _ => nofun⟩
      split at taken
      · cases taken
      · rename_i s₁ looped
        have kept : Ok h Tok past env.now none (some t.addr) s₁.bul s₁ :=
          Ok.recvCotLoop put token looped
        split at taken
        · cases taken
        · rename_i rre here
          have still := kept.get here
          split at taken
          · cases taken
            refine (kept.rrlDelete rre).relax ?_
            intro addr other there
            have elsewhere := rrl_rrlDelete there
            rw [still.own1] at elsewhere
            exact ⟨id, fun _ same => elsewhere (Option.some.inj same).symm⟩
          · cases taken
            have ends : (rre.lives .careofkgtRefresh).own1 = t.addr := still.own1
            refine kept.settleRre (ends.symm ▸ still.lives ⟨nofun, nofun, ?_⟩) ?_
            · exact fun _ => (rrlGet_eq.mp here).2
            · intro addr elsewhere
              rw [ends] at elsewhere
              exact ⟨id, fun _ same => elsewhere (Option.some.inj same).symm⟩

theorem Ok.answerHot {bule : Bulentry} {rreHo : Rrlentry}
    (ok : Ok h Tok past env.now none busy (inHand s bule) s)
    (home : ∃ sent, Tok bule.hoa 0 bule.hoNi t.keygen sent) (coa : rreHo.own2 = bule.coa) :
    Ok h Tok past env.now none busy (answerHot h env s bule rreHo t).bul
      (answerHot h env s bule rreHo t) := by
  simp only [Retrout.answerHot]
  cases dereg : bule.dereg with
  | true =>
      rw [if_pos rfl]
      split
      · refine Ok.sendCnBu (ok.hand ⟨rfl, rfl, rfl, rfl, rfl, rfl⟩) ?_
        simp only [Keyed, if_true]
        exact ⟨_, home, rfl⟩
      · exact ok.put ⟨rfl, rfl, rfl, rfl, rfl, rfl⟩
  | false =>
      rw [if_neg Bool.false_ne_true]
      split
      · exact ok.put ⟨rfl, rfl, rfl, rfl, rfl, rfl⟩
      · rename_i rreCo found
        obtain ⟨isCot, ready⟩ := Option.filter_eq_some_iff.mp found
        have ended : rreCo.wait = false := by
          simpa using (of_decide_eq_true ready).1
        have careOf := (ok.get isCot).token ended
        rw [(rrlGet_eq.mp isCot).2, coa] at careOf
        refine Ok.sendCnBu (ok.hand ⟨rfl, rfl, rfl, rfl, rfl, rfl⟩) ?_
        simp only [Keyed, Bool.false_eq_true, if_false]
        exact ⟨_, _, home, ⟨_, careOf⟩, rfl⟩

theorem Ok.recvHot {remoteCoa : Option In6Addr} (ok : Kept h Tok past env.now s)
    (genuine : Genuine Tok s t) (isHot : t.type = .hotEntry)
    (taken : mnRecvHot h env s t remoteCoa = .ok s') : Kept h Tok past env.now s' := by
  simp only [mnRecvHot] at taken
  split at taken
  · cases taken
    exact ok
  · split at taken
    · cases taken
      exact ok
    · rename_i rreHo waits
      have token := genuine _ rreHo waits isHot
      obtain ⟨isHere, -, -⟩ := waiting_eq.mp waits
      obtain ⟨isRre, type⟩ := rrlGet_eq.mp isHere
      have old := ok.get isHere
      have own : (rreHo.tested t).own1 = t.addr := old.own1
      split at taken
      · cases taken
        exact ok.rrlDelete rreHo
      · rename_i bule found
        obtain ⟨here, isBule⟩ := Option.filter_eq_some_iff.mp found
        have isBul : bule.type = .bulEntry := of_decide_eq_true isBule
        have entry := ok.bules _ _ here
        obtain ⟨other, isOther, -, -, coa⟩ := old.hot type
        rw [here, Option.some.injEq] at isOther
        subst isOther
        -- the entry and its test change together
        have both : Ok h Tok past env.now none (some t.addr)
            (inHand s { bule with hoNi := t.index }) (s.putRre (rreHo.tested t)) := by
          have without : Ok h Tok past env.now none none (inHand s { bule with hoNi := t.index })
              (Retrout.rrlDelete s rreHo) := by
            refine (ok.rrlDelete rreHo).setBule ⟨rfl, entry.peer, entry.flags⟩ ?_
            intro rre there
            have elsewhere := rrl_rrlDelete there
            rw [old.own1] at elsewhere
            exact absurd entry.hoa elsewhere
          rw [← putRre_rrlDelete (rfl : (rreHo.tested t).own1 = rreHo.own1)]
          refine without.settleRre ?_ fun _ _ => ⟨id, fun _ => nofun⟩
          rw [own]
          refine old.tested (type ▸ token) ?_
          intro _
          refine ⟨{ bule with hoNi := t.index }, ?_, isBul, rfl, fun _ => coa nofun⟩
          rw [← entry.hoa]
          exact inHand_self s { bule with hoNi := t.index }
        have answered : Ok h Tok past env.now none (some t.addr) _ _ :=
          @Ok.answerHot h Tok past (some t.addr) (s.putRre (rreHo.tested t)) env t
            { bule with hoNi := t.index } (rreHo.tested t) both
            ⟨rreHo.lastsent, entry.hoa.symm ▸ token⟩ (coa nofun)
        split at taken
        · cases taken
        · rename_i rre there
          cases taken
          have still := answered.get there
          have ends : (rre.lives .homekgtRefresh).own1 = t.addr := still.own1
          refine answered.settleRre (ends.symm ▸ still.lives ⟨nofun, ?_, nofun⟩) ?_
          · exact fun _ => (rrlGet_eq.mp there).2
          · intro addr elsewhere
            rw [ends] at elsewhere
            exact ⟨id, fun _ same => elsewhere (Option.some.inj same).symm⟩

end Received

section Events
variable {h : Host} {Tok : Tokens} {past : List TestInit} {s s' : Mn} {env : Env}
  {hoa : In6Addr} {bule : Bulentry}

theorem Ok.sendIfReady (ok : Ok h Tok past env.now none none (inHand s bule) s)
    (ready : bule.state = .ready → Keyed h Tok ⟨bule, .mnRrRefresh⟩) :
    Kept h Tok past env.now (sendIfReady h env (s, bule)) := by
  simp only [Retrout.sendIfReady]
  split
  · rename_i isReady
    exact ok.sendCnBu (ready isReady)
  · exact ok.put ⟨rfl, rfl, rfl, rfl, rfl, rfl⟩

theorem Ok.refreshed (ok : Ok h Tok past env.now (some bule.hoa) none (inHand s bule) s)
    (taken : Retrout.sendIfReady h env <$> mnRrRefresh h s env.now bule = .ok s') :
    Kept h Tok past env.now s' := by
  cases refreshes : mnRrRefresh h s env.now bule with
  | error fault =>
      rw [refreshes] at taken
      cases taken
  | ok result =>
      obtain ⟨s₁, bule'⟩ := result
      rw [refreshes] at taken
      cases taken
      obtain ⟨kept, frame, same, -, ready⟩ := ok.refresh (inHand_self s bule) refreshes
      have held : Ok h Tok past env.now none none (inHand s₁ bule) s₁ := by
        rw [inHand, frame]
        exact kept
      exact (held.hand same).sendIfReady fun isReady =>
        kept.atHand (inHand_self s bule) same (ready isReady)

theorem bulDelete_bul (s : Mn) (bule : Bulentry) :
    (Retrout.bulDelete s bule).bul = Function.update s.bul bule.hoa none := by
  simp only [Retrout.bulDelete]
  generalize (if bule.hoa = bule.coa then bule else
    { bule with lastCoa := bule.coa, coa := bule.hoa, coaChanged := 1 }) = e
  split
  · rw [mnRrDeleteBule_bul]
  · rfl

theorem Ok.noHot (ok : Kept h Tok past env.now s) (absent : s.bul hoa = none) {rre : Rrlentry}
    (here : s.rrl hoa = some rre) : rre.type ≠ .hotEntry := by
  intro isHot
  obtain ⟨bule, isHere, -⟩ := (ok.tests hoa rre here).hot isHot
  rw [absent] at isHere
  cases isHere

theorem Ok.create (ok : Kept h Tok past env.now s) (absent : s.bul bule.hoa = none)
    (peer : bule.peerAddr = h.peerAddr) (flags : bule.flags = 0 ∨ bule.flags = ip6MhBuAck) :
    Ok h Tok past env.now none none (inHand s bule) s :=
  ok.setBule ⟨rfl, peer, flags⟩ fun _ here isHot => absurd isHot (ok.noHot absent here)

theorem Ok.startRo {coa : In6Addr} {ifCoa : Int} {add : Adding}
    (ok : Kept h Tok past env.now s) (taken : mnStartRo h env s hoa coa ifCoa add = .ok s') :
    Kept h Tok past env.now s' := by
  simp only [mnStartRo] at taken
  split at taken
  · cases taken
    exact ok
  · rename_i goesOn
    generalize isBule : mnResetRoBule _ = bule at taken
    have facts : bule.hoa = hoa ∧ bule.peerAddr = h.peerAddr ∧ bule.flags = h.conf.cnBuAck := by
      subst isBule
      exact ⟨rfl, rfl, rfl⟩
    obtain ⟨isHoa, peer, flags⟩ := facts
    have absent : s.bul bule.hoa = none := by
      rw [isHoa]
      cases there : s.bul hoa with
      | none => rfl
      | some other =>
          rw [there] at goesOn
          exact absurd (Or.inr (Or.inr rfl)) goesOn
    have created := ok.create absent peer (flags ▸ h.conf.ackOnly)
    have put : Kept h Tok past env.now (s.putBule bule) :=
      created.put ⟨rfl, rfl, rfl, rfl, rfl, rfl⟩
    have here : (s.putBule bule).bul bule.hoa = some bule := Function.update_self ..
    have held := put.take here
    split at taken
    · cases taken
      exact held.drop ⟨rfl, rfl, rfl, rfl, rfl, rfl⟩
    · split at taken
      · cases taken
      · rename_i s₁ bule' refreshes
        cases taken
        obtain ⟨kept, frame, same, -, -⟩ := (put.moving _).refresh here refreshes
        have still : Ok h Tok past env.now none none (inHand s₁ bule) s₁ := by
          rw [inHand_of_mem (frame ▸ here) rfl, frame]
          exact kept
        split
        · exact still.drop same
        · exact still.put same

theorem Ok.startHandoff {coa : In6Addr} {ifCoa : Int} (ok : Kept h Tok past env.now s)
    (here : s.bul hoa = some bule) (taken : mnRrStartHandoff h env s bule coa ifCoa = .ok s') :
    Kept h Tok past env.now s' := by
  have held := ok.take here
  simp only [mnRrStartHandoff] at taken
  split at taken
  · cases taken
    exact ok
  · generalize isDereg : (if env.atHome bule.hoa = true then
      { bule with dereg := true, lifetime := ⟨0, 0⟩ } else bule) = e at taken
    have same : Same bule e := by
      subst isDereg
      split <;> exact ⟨rfl, rfl, rfl, rfl, rfl, rfl⟩
    split at taken
    · cases taken
      exact held.drop same
    · have inE := held.hand same
      have entry := inE.bules _ _ (inHand_self s e)
      -- the home test does not know the new care-of address yet
      have moved : ∀ e' : Bulentry, Same { e with coa := coa } e' →
          Ok h Tok past env.now (some e'.hoa) none (inHand s e') s := by
        intro e' alike
        have isHoa : e'.hoa = e.hoa := alike.hoa
        have placed : Ok h Tok past env.now (some e'.hoa) none
            (Function.update (inHand s e) e'.hoa (some e')) s := by
          refine (inE.moving _).setBule ⟨rfl, alike.peer.trans entry.peer, ?_⟩ ?_
          · rw [alike.flags]
            exact entry.flags
          · intro rre there isHot
            rw [isHoa] at there
            obtain ⟨other, isOther, type, hoNi, -⟩ := (inE.tests _ rre there).hot isHot
            rw [inHand_self, Option.some.injEq] at isOther
            subst isOther
            refine ⟨alike.type.trans type, ?_, fun stays => absurd rfl stays⟩
            exact fun ended => alike.hoNi.trans (hoNi ended)
        rwa [inHand, ← isHoa, Function.update_idem] at placed
      split at taken
      · cases taken
        exact (moved _ ⟨rfl, rfl, rfl, rfl, rfl, rfl⟩).bulDelete
      · exact (moved { e with coa := coa, doSendBu := true }
          ⟨rfl, rfl, rfl, rfl, rfl, rfl⟩).refreshed taken

theorem Ok.checkEntry {used : Bool} (ok : Kept h Tok past env.now s)
    (here : s.bul hoa = some bule)
    (taken : mnRrCheckEntry h env s bule used = .ok s') : Kept h Tok past env.now s' := by
  have held := ok.take here
  simp only [mnRrCheckEntry] at taken
  split at taken
  · have reset : Same bule (mnResetRoBule { bule with lastsent := env.now }) :=
      ⟨rfl, rfl, rfl, rfl, rfl, rfl⟩
    exact ((held.hand reset).moving _).refreshed taken
  · cases taken
    exact held.drop ⟨rfl, rfl, rfl, rfl, rfl, rfl⟩

theorem Ok.dereg (ok : Kept h Tok past env.now s) (here : s.bul hoa = some bule)
    (taken : mnDereg h env s bule = .ok s') : Kept h Tok past env.now s' := by
  have held := ok.take here
  simp only [mnDereg] at taken
  split at taken
  · have inE : Ok h Tok past env.now none none (inHand s { bule with dereg := true }) s :=
      held.hand ⟨rfl, rfl, rfl, rfl, rfl, rfl⟩
    split at taken
    · cases taken
    · rename_i s₁ bule' refreshes
      obtain ⟨kept, frame, same, -, ready⟩ := (inE.moving _).refresh (inHand_self s _) refreshes
      have still : Ok h Tok past env.now none none (inHand s₁ bule') s₁ := by
        refine Ok.hand ?_ same
        rw [inHand, frame]
        exact kept
      split at taken
      · cases taken
        exact still.put ⟨rfl, rfl, rfl, rfl, rfl, rfl⟩
      · rename_i isReady
        cases taken
        have alike : Alike bule' { bule' with seq := bule'.seq + 1, lifetime := ⟨0, 0⟩ } :=
          ⟨⟨rfl, rfl, rfl, rfl, rfl, rfl⟩, rfl, rfl, rfl⟩
        have next := still.hand alike.toSame
        have entry := next.bules _ _ (inHand_self _ _)
        have keyed := kept.atHand (inHand_self s _) same (ready (not_not.mp isReady))
        have sent := next.sendBuMsg ⟨entry, alike.keyed keyed, fun _ _ => rfl⟩
        exact Ok.drop sent (mnSendBuMsg_same ..)
  · cases taken
    exact held.drop ⟨rfl, rfl, rfl, rfl, rfl, rfl⟩

theorem Ok.invalidate {block : Bool} {add : Adding} (ok : Kept h Tok past env.now s)
    (held : Ok h Tok past env.now none none (inHand s bule) s) :
    Kept h Tok past env.now (buleInvalidate h env s bule block add) := by
  have entry := held.bules _ _ (inHand_self s bule)
  have deleted : Kept h Tok past env.now (Retrout.bulDelete s bule) :=
    held.drop ⟨rfl, rfl, rfl, rfl, rfl, rfl⟩
  simp only [buleInvalidate]
  split
  · exact ok
  · split
    · exact deleted
    · generalize isNew : ({ createBule h bule.hoa add.seq with
        type := if block = true then BulType.nonMipCnEntry else .unreachEntry
        flags := bule.flags
        lastsent := env.now
        lifetime := nonMipCnLtime
        delay := nonMipCnLtime } : Bulentry) = e
      have facts : e.hoa = bule.hoa ∧ e.peerAddr = h.peerAddr ∧ e.flags = bule.flags := by
        subst isNew
        exact ⟨rfl, rfl, rfl⟩
      obtain ⟨hoa, peer, flags⟩ := facts
      have absent : (Retrout.bulDelete s bule).bul e.hoa = none := by
        rw [bulDelete_bul, hoa, Function.update_self]
      have created := deleted.create absent peer (flags ▸ entry.flags)
      split
      · exact created.put ⟨rfl, rfl, rfl, rfl, rfl, rfl⟩
      · exact created.drop ⟨rfl, rfl, rfl, rfl, rfl, rfl⟩

theorem buLftCheck_same (env : Env) (bule : Bulentry) : Same bule (buLftCheck env bule).2 := by
  simp only [buLftCheck]
  split <;> exact ⟨rfl, rfl, rfl, rfl, rfl, rfl⟩

theorem Ok.buResend {uncertain : Bool} (held : Ok h Tok past env.now none none (inHand s bule) s) :
    Kept h Tok past env.now (buResend h env s bule uncertain) := by
  simp only [Retrout.buResend]
  split
  · exact held.drop ⟨rfl, rfl, rfl, rfl, rfl, rfl⟩
  · generalize isNext : ({ bule with
      lastsent := env.now
      delay := tsmin (tsadd bule.delay bule.delay) maxBindackTimeout
      consecutiveResends := bule.consecutiveResends + 1 } : Bulentry) = next
    have same : Same bule next := by
      subst isNext
      exact ⟨rfl, rfl, rfl, rfl, rfl, rfl⟩
    have checked := buLftCheck_same env next
    generalize (buLftCheck env next).1 = expired
    generalize (buLftCheck env next).2 = e at checked
    have inE : Ok h Tok past env.now none none (inHand s { e with seq := e.seq + 1 }) s :=
      held.hand (same.trans (checked.trans ⟨rfl, rfl, rfl, rfl, rfl, rfl⟩))
    have entry := inE.bules _ _ (inHand_self _ _)
    split
    · exact inE.drop ⟨rfl, rfl, rfl, rfl, rfl, rfl⟩
    · have sent : Ok h Tok past env.now none none _
          (mnSendBuMsg s { e with seq := e.seq + 1 } .resend).1 :=
        inE.sendBuMsg ⟨entry, trivial, fun other => absurd rfl other⟩
      split
      · exact Ok.drop sent (mnSendBuMsg_same ..)
      · exact Ok.put sent (mnSendBuMsg_same ..)

theorem Ok.chkBauth {ba : Ba} {left : Option Bulentry} (ok : Kept h Tok past env.now s)
    (here : s.bul hoa = some bule) (taken : mnChkBauth h env s ba bule = .ok (s', left)) :
    Kept h Tok past env.now s' ∧ ∀ e ∈ left, e = bule ∧ s' = s := by
  have held := ok.take here
  simp only [mnChkBauth] at taken
  split at taken
  · rename_i verified _
    cases taken
    refine ⟨ok, fun e isE => ?_⟩
    cases verified with
    | true => exact ⟨(Option.some.inj isE).symm, rfl⟩
    | false => cases isE
  · split at taken
    · generalize isState : (if ba.status = 136 then { bule with state := .hExpired }
          else if ba.status = 137 then { bule with state := .cExpired }
          else if ba.status = 138 then { bule with state := .expired }
          else bule) = e at taken
      have same : Same bule e := by
        subst isState
        split
        · exact ⟨rfl, rfl, rfl, rfl, rfl, rfl⟩
        · split
          · exact ⟨rfl, rfl, rfl, rfl, rfl, rfl⟩
          · split <;> exact ⟨rfl, rfl, rfl, rfl, rfl, rfl⟩
      have inE := held.hand same
      split at taken
      · cases taken
      · rename_i s₁ e' forced
        cases taken
        obtain ⟨kept, frame, isStarted⟩ := inE.forceRefresh (inHand_self s e) forced
        subst isStarted
        have still : Ok h Tok past env.now none none (inHand s₁ e) s₁ := by
          rw [inHand, frame]
          exact kept
        have reset : Same e (mnResetRoBule { e with state := .started }) :=
          ⟨rfl, rfl, rfl, rfl, rfl, rfl⟩
        exact ⟨still.put reset, fun _ isLeft => by cases isLeft⟩
    · cases taken
      exact ⟨ok, fun _ isLeft => by cases isLeft⟩

theorem Ok.resendSeqno {ba : Ba} (held : Ok h Tok past env.now none none (inHand s bule) s) :
    Ok h Tok past env.now none none
      (inHand (resendSeqno h env s ba bule).1 (resendSeqno h env s ba bule).2)
      (resendSeqno h env s ba bule).1 := by
  simp only [Retrout.resendSeqno]
  generalize isNext : ({ bule with
    lastsent := env.now
    seq := ba.seqno + 1
    lifetime := mnGetRoLifetime env bule.hoa false
    callback := .buResend } : Bulentry) = next
  have same : Same bule next := by
    subst isNext
    exact ⟨rfl, rfl, rfl, rfl, rfl, rfl⟩
  have inNext := held.hand same
  have entry := inNext.bules _ _ (inHand_self s next)
  have sent : Ok h Tok past env.now none none _ (mnSendBuMsg s next .resend).1 :=
    inNext.sendBuMsg ⟨entry, trivial, fun other => absurd rfl other⟩
  have sameSent := mnSendBuMsg_same s next .resend
  generalize (mnSendBuMsg s next .resend).2 = e at sameSent ⊢
  exact Ok.hand sent (sameSent.trans ⟨rfl, rfl, rfl, rfl, rfl, rfl⟩)

theorem Ok.takeBa {ba : Ba} {add : Adding} (ok : Kept h Tok past env.now s)
    (held : Ok h Tok past env.now none none (inHand s bule) s) :
    Kept h Tok past env.now (takeBa h env s ba bule add) := by
  simp only [Retrout.takeBa]
  generalize isNext : ({ bule with doSendBu := false, consecutiveResends := 0 } : Bulentry) = next
  have same : Same bule next := by
    subst isNext
    exact ⟨rfl, rfl, rfl, rfl, rfl, rfl⟩
  have inNext := held.hand same
  split
  · exact ok.invalidate inNext
  · have after : Ok h Tok past env.now none none
        (inHand (if ba.status = 135 then Retrout.resendSeqno h env s ba next else (s, next)).1
          (if ba.status = 135 then Retrout.resendSeqno h env s ba next else (s, next)).2)
        (if ba.status = 135 then Retrout.resendSeqno h env s ba next else (s, next)).1 := by
      split
      · exact inNext.resendSeqno
      · exact inNext
    generalize (if ba.status = 135 then Retrout.resendSeqno h env s ba next else (s, next)) = result
      at after ⊢
    obtain ⟨s₁, e⟩ := result
    have acked : Same e (if ba.status = 135 then e else { e with waitAck := false }) := by
      split <;> exact ⟨rfl, rfl, rfl, rfl, rfl, rfl⟩
    generalize (if ba.status = 135 then e else { e with waitAck := false }) = e' at acked ⊢
    split
    · exact after.put ⟨rfl, rfl, rfl, rfl, rfl, rfl⟩
    · split
      · exact after.drop acked
      · exact after.put (acked.trans ⟨rfl, rfl, rfl, rfl, rfl, rfl⟩)

theorem Ok.recvBe {berr : BindingError} {dst : In6Addr} {add : Adding}
    (ok : Kept h Tok past env.now s) :
    Kept h Tok past env.now (mnRecvBe h env s berr dst add) := by
  simp only [mnRecvBe]
  split
  · exact ok
  · rename_i e found
    have held := ok.take (Option.filter_eq_some_iff.mp found).1
    split
    · exact held.drop ⟨rfl, rfl, rfl, rfl, rfl, rfl⟩
    · split
      · split
        · exact ok
        · split
          · exact ok
          · split
            · exact ok.invalidate held
            · exact ok
      · exact ok

theorem Ok.bulTimer {used uncertain : Bool} (ok : Kept h Tok past env.now s)
    (here : s.bul hoa = some bule) (taken : bulTimer h env s bule used uncertain = .ok s') :
    Kept h Tok past env.now s' := by
  have held := ok.take here
  simp only [Retrout.bulTimer] at taken
  split at taken
  · exact ok.checkEntry here taken
  · cases taken
    exact held.buResend
  · cases taken
    exact held.drop ⟨rfl, rfl, rfl, rfl, rfl, rfl⟩
  · cases taken
    exact ok

def MnInput.Genuine (Tok : Tokens) (s : Mn) : MnInput → Prop
  | .recvTest t _ => Retrout.Genuine Tok s t
  | _ => True

theorem Mn.ok_step {input : MnInput} (ok : Kept h Tok past env.now s)
    (genuine : input.Genuine Tok s) (taken : s.step h env input = .ok s') :
    Kept h Tok past env.now s' := by
  cases input with
  | startRo hoa coa ifCoa add => exact ok.startRo taken
  | startHandoff hoa coa ifCoa =>
      simp only [Mn.step] at taken
      split at taken
      · cases taken
        exact ok
      · rename_i bule here
        exact ok.startHandoff here taken
  | bulTimer hoa used uncertain =>
      simp only [Mn.step] at taken
      split at taken
      · cases taken
        exact ok
      · rename_i bule here
        exact ok.bulTimer here taken
  | rrlTimer own used =>
      simp only [Mn.step] at taken
      split at taken
      · cases taken
        exact ok
      · rename_i rre here
        cases taken
        simp only [Kept, rrlTimer_bul]
        exact ok.rrlTimer here used
  | recvTest t remoteCoa =>
      simp only [Mn.step] at taken
      split at taken
      · rename_i isHot
        exact ok.recvHot genuine isHot taken
      · rename_i isCot
        exact ok.recvCot genuine isCot taken
  | recvBa hoa ba add =>
      simp only [Mn.step] at taken
      split at taken
      · cases taken
        exact ok
      · rename_i bule found
        obtain ⟨here, -⟩ := Option.filter_eq_some_iff.mp found
        simp only [mnProcessCnBa] at taken
        split at taken
        · cases taken
        · rename_i s₁ checked
          cases taken
          exact (ok.chkBauth here checked).1
        · rename_i s₁ bule' checked
          obtain ⟨rfl, rfl⟩ := (ok.chkBauth here checked).2 bule' rfl
          split at taken
          · cases taken
            exact ok
          · cases taken
            exact ok.takeBa (ok.take here)
  | recvBe berr dst add =>
      cases taken
      exact ok.recvBe
  | invalidate hoa block add =>
      simp only [Mn.step] at taken
      split at taken
      · cases taken
        exact ok
      · rename_i bule here
        cases taken
        exact ok.invalidate (ok.take here)
  | flush hoa =>
      simp only [Mn.step] at taken
      split at taken
      · cases taken
        exact ok
      · rename_i bule here
        cases taken
        exact (ok.take here).drop ⟨rfl, rfl, rfl, rfl, rfl, rfl⟩
  | dereg hoa =>
      simp only [Mn.step] at taken
      split at taken
      · cases taken
        exact ok
      · rename_i bule here
        exact ok.dereg here taken
  | deleteCo coa =>
      cases taken
      simp only [mnRrDeleteCo]
      split
      · exact ok
      · exact ok.rrlDelete _

end Events

end OaiPmip.Retrout
