import OaiPmip.LmaMoves

/-!
# The anchor's tunnels and routes

Every call for a tunnel or a forward route is booked on an account: one for the
tunnel references of each MAG, one for the routes of each address through each
tunnel.  The books balance when every account holds one unit for each binding
that goes with it.  A registration adds the units of its binding and a
deregistration or expiry takes them back.  A refresh books nothing, so it keeps
the balance exactly when it leaves the binding's address alone and
`lma_update_binding_entry` does not take its route and tunnel down.
-/

set_option autoImplicit false

namespace OaiPmip

open OaiPmip.HashKeys OaiPmip.Msgs OaiPmip.Runs

/-- The references to a MAG's tunnel, and the forward routes of an address
through a tunnel. -/
inductive Account where
  | tunnel (mag : In6Addr)
  | route (dst : In6Addr) (oif : Int)
  deriving DecidableEq

def Effect.posting : Effect → Account → Int
  | .tunnelAdd remote _, .tunnel mag => if remote = mag then 1 else 0
  | .tunnelDel served _, .tunnel mag => if served = mag then -1 else 0
  | .routeAdd oif .mip6 dst 128, .route dst' oif' => if dst = dst' ∧ oif = oif' then 1 else 0
  | .routeDel oif .mip6 dst 128, .route dst' oif' => if dst = dst' ∧ oif = oif' then -1 else 0
  | _, _ => 0

def balance (log : List Effect) (account : Account) : Int :=
  (log.map fun effect => effect.posting account).sum

theorem balance_cons (effect : Effect) (log : List Effect) (account : Account) :
    balance (effect :: log) account = effect.posting account + balance log account := by
  simp [balance]

/-- Whether a binding stands for a unit on an account.  Without tunnelling no
forward route is set up. -/
def PmipEntry.Holds (conf : Conf) (e : PmipEntry) : Account → Prop
  | .tunnel mag => e.type = .pmip ∧ e.mnServMagAddr = mag
  | .route dst oif =>
      conf.tunnelingEnabled = true ∧ e.type = .pmip ∧ e.mnAddr = dst ∧ e.tunnel = oif

instance (conf : Conf) (e : PmipEntry) : (account : Account) → Decidable (e.Holds conf account)
  | .tunnel _ => inferInstanceAs (Decidable (_ ∧ _))
  | .route _ _ => inferInstanceAs (Decidable (_ ∧ _ ∧ _ ∧ _))

def PmipEntry.unit (conf : Conf) (e : PmipEntry) (account : Account) : Int :=
  if e.Holds conf account then 1 else 0

theorem PmipEntry.unit_content {conf : Conf} {e e' : PmipEntry} (same : e'.content = e.content)
    (account : Account) : e'.unit conf account = e.unit conf account := by
  have alike : e'.Holds conf account ↔ e.Holds conf account := by
    have type := congrArg PmipEntry.type same
    have mag := congrArg PmipEntry.mnServMagAddr same
    have addr := congrArg PmipEntry.mnAddr same
    have tunnel := congrArg PmipEntry.tunnel same
    simp only [PmipEntry.content] at type mag addr tunnel
    cases account <;> simp only [PmipEntry.Holds, type, mag, addr, tunnel]
  simp only [PmipEntry.unit, alike]

def PmipEntry.Settled (e : PmipEntry) : Prop := e.mnAddr = convertId2Addr e.mnPrefix e.mnSuffix

theorem PmipEntry.settled_content {e e' : PmipEntry} (same : e'.content = e.content)
    (settled : e.Settled) : e'.Settled := by
  have addr := congrArg PmipEntry.mnAddr same
  have pfx := congrArg PmipEntry.mnPrefix same
  have suffix := congrArg PmipEntry.mnSuffix same
  simp only [PmipEntry.content] at addr pfx suffix
  simp only [PmipEntry.Settled, addr, pfx, suffix]
  exact settled

/-- Nothing is booked, no tunnel is released and no retransmission is queued. -/
structure Level (d d' : Daemon) : Prop where
  books : balance d'.log = balance d.log
  released : ∀ mag tunnel, .tunnelDel mag tunnel ∈ d'.log → .tunnelDel mag tunnel ∈ d.log
  tasks : ∀ bce, d'.tun.tq.task (.bce bce) = some .retransPbu →
    d.tun.tq.task (.bce bce) = some .retransPbu

namespace Level

variable {d d' d'' : Daemon}

theorem refl (d : Daemon) : Level d d := ⟨rfl, fun _ _ same => same, fun _ same => same⟩

theorem trans (first : Level d d') (second : Level d' d'') : Level d d'' where
  books := second.books.trans first.books
  released := fun mag tunnel later => first.released mag tunnel (second.released mag tunnel later)
  tasks := fun bce later => first.tasks bce (second.tasks bce later)

end Level

namespace Daemon

section Level
variable (conf : Conf) (d : Daemon) (env : Env) (bce : Nat)

theorem level_modify (write : PmipEntry → PmipEntry) : Level d (d.modify bce write) :=
  ⟨rfl, fun _ _ same => same, fun _ same => same⟩

theorem level_emit {effect : Effect} (unposted : ∀ account, effect.posting account = 0)
    (noRelease : ∀ mag tunnel, effect ≠ .tunnelDel mag tunnel) : Level d (d.emit effect) where
  books := by
    funext account
    simp [emit, balance_cons, unposted account]
  released := by
    intro mag tunnel later
    rcases List.mem_cons.mp later with here | before
    · exact absurd here.symm (noRelease mag tunnel)
    · exact before
  tasks := fun _ same => same

theorem level_cacheStart : Level d (d.pmipCacheStart env bce) where
  books := rfl
  released := fun _ _ same => same
  tasks := by
    intro other later
    simp only [pmipCacheStart, addTask, TQueue.addTaskAbs_task] at later
    by_cases here : TqElem.bce other = .bce bce
    · rw [here, Function.update_self] at later
      cases later
    · rw [Function.update_of_ne here] at later
      exact later

theorem level_mhSendPba (src dst : In6Addr) (lifetime : Timespec) :
    Level d (d.mhSendPba env src dst bce lifetime) := by
  simp only [mhSendPba]
  split
  · exact (level_modify d bce _).trans (level_emit _ (fun account => by cases account <;> rfl)
      (fun _ _ => by simp))
  · exact Level.refl d

theorem level_lmaRegNoNewTunnel : Level d (d.lmaRegNoNewTunnel conf env bce) :=
  ((level_modify d bce _).trans (level_cacheStart _ env bce)).trans
    (level_mhSendPba _ env bce _ _ _)

theorem level_acknowledge (seqno : Option UInt16) :
    Level d (d.acknowledge conf env bce seqno) := by
  cases seqno with
  | none => exact Level.refl d
  | some seqno => exact (level_modify d bce _).trans (level_mhSendPba _ env bce _ _ _)

end Level

/-! ## Calls that book a binding -/

section Booked
variable {conf : Conf} {d d' : Daemon} {env : Env} {bce : Nat}

theorem tunnelAdd_ok {remote : In6Addr} {link : Int}
    (added : d.pmipTunnelAdd conf env bce remote link = .ok d') :
    ∃ tunnel, d'.heap bce = { d.heap bce with tunnel := tunnel } ∧
      d'.log = .tunnelAdd remote tunnel :: d.log ∧
      ∀ p, d'.tun.tq.task (.bce p) = d.tun.tq.task (.bce p) := by
  simp only [pmipTunnelAdd] at added
  split at added
  · cases added
  · rename_i tun tunnel opened
    cases added
    refine ⟨tunnel, ?_, rfl, fun p => congrArg (·.2.2) (Tunnels.pmipTunnelAdd_slot opened p)⟩
    simp [modify, emit]

theorem tunnelDel_ok (deleted : d.pmipTunnelDel conf env bce = .ok d') :
    d'.heap = d.heap ∧
      d'.log = .tunnelDel (d.heap bce).mnServMagAddr (d.heap bce).tunnel :: d.log ∧
      ∀ p, d'.tun.tq.task (.bce p) = d.tun.tq.task (.bce p) := by
  unfold pmipTunnelDel at deleted
  dsimp only at deleted
  split at deleted
  · cases deleted
  · rename_i closed
    cases deleted
    exact ⟨rfl, rfl, fun p => congrArg (·.2.2) (Tunnels.pmipTunnelDel_slot closed p)⟩

theorem lmaForward_log (conf : Conf) (d : Daemon) (bce : Nat) : (d.lmaForward conf bce).log =
    if conf.tunnelingEnabled then
      .routeAdd (d.heap bce).tunnel .mip6
        (convertId2Addr (d.heap bce).mnPrefix (d.heap bce).mnSuffix) 128 :: d.log
    else d.log := by
  simp only [lmaForward, lmaSetupRoute]
  split
  · simp [emit, getMnAddr, modify, touch]
  · rfl

theorem lmaForward_entry (conf : Conf) (d : Daemon) (bce : Nat) : (d.lmaForward conf bce).heap bce =
    { d.heap bce with
      mnAddr := convertId2Addr (d.heap bce).mnPrefix (d.heap bce).mnSuffix } := by
  simp only [lmaForward, lmaSetupRoute]
  split <;> simp [emit, getMnAddr, modify]

theorem level_addClientRoute {nai : Nai} {mag : In6Addr}
    (added : d.addClientRoute env nai mag = .ok d') : Level d d' := by
  simp only [addClientRoute] at added
  split at added
  · cases added
    exact ⟨rfl, fun _ _ same => same, fun _ same => same⟩
  · cases added

theorem level_removeClientRoute {nai : Nai} {mag : In6Addr}
    (removed : d.removeClientRoute nai mag = .ok d') : Level d d' := by
  simp only [removeClientRoute] at removed
  split at removed
  · cases removed
    exact ⟨rfl, fun _ _ same => same, fun _ same => same⟩
  · cases removed

theorem opened_unit {e : PmipEntry} (isPmip : e.type = .pmip) (settled : e.Settled)
    (log : List Effect) (account : Account) :
    balance (if conf.tunnelingEnabled then
        .routeAdd e.tunnel .mip6 (convertId2Addr e.mnPrefix e.mnSuffix) 128 ::
          .tunnelAdd e.mnServMagAddr e.tunnel :: log
      else .tunnelAdd e.mnServMagAddr e.tunnel :: log) account =
      balance log account + e.unit conf account := by
  rw [← settled]
  cases account with
  | tunnel mag =>
      split <;> simp only [balance_cons, Effect.posting, PmipEntry.unit, PmipEntry.Holds, isPmip,
        true_and] <;> omega
  | route dst oif =>
      split
      · rename_i tunnelling
        simp only [balance_cons, Effect.posting, PmipEntry.unit, PmipEntry.Holds, isPmip,
          tunnelling, true_and]
        omega
      · rename_i plain
        have unheld : ¬ e.Holds conf (.route dst oif) := fun holds => plain holds.1
        simp [balance_cons, Effect.posting, PmipEntry.unit, unheld]

theorem level_link (d : Daemon) (nai : Nai) (mag : In6Addr) :
    Level d (d.emit (.linkUp nai mag)) ∧ Level d (d.emit (.linkDown nai mag)) :=
  ⟨level_emit d (fun account => by cases account <;> rfl) (fun _ _ => by simp),
    level_emit d (fun account => by cases account <;> rfl) (fun _ _ => by simp)⟩

theorem lmaReg_ok (reg : d.lmaReg conf env bce = .ok d') :
    ∃ opened, (d.touch [bce]).pmipTunnelAdd conf env bce (d.heap bce).mnServMagAddr
        (d.heap bce).link = .ok opened ∧
      Level (opened.lmaForward conf bce) d' ∧
      Frame PmipEntry.content bce (opened.lmaForward conf bce) d' := by
  simp only [lmaReg] at reg
  obtain ⟨opened, added, reg⟩ := bind_eq_ok.mp reg
  obtain ⟨routed, clients, done⟩ := bind_eq_ok.mp reg
  cases done
  refine ⟨opened, added, ?_, ?_⟩
  · exact ((level_lmaRegNoNewTunnel conf _ env bce).trans (level_addClientRoute clients)).trans
      (level_link routed _ _).1
  · exact ((frame_lmaRegNoNewTunnel conf _ env bce).trans
      ((frame_addClientRoute _ env bce _ _).of_ok clients)).trans (frame_emit _ routed bce _)

theorem lmaReg_books (isPmip : (d.heap bce).type = .pmip)
    (reg : d.lmaReg conf env bce = .ok d') :
    (d'.heap bce).Settled ∧
      (∀ account, balance d'.log account =
        balance d.log account + (d'.heap bce).unit conf account) ∧
      .tunnelAdd (d'.heap bce).mnServMagAddr (d'.heap bce).tunnel ∈ d'.log ∧
      (∀ mag tunnel, .tunnelDel mag tunnel ∈ d'.log → .tunnelDel mag tunnel ∈ d.log) ∧
      (∀ p, d'.tun.tq.task (.bce p) = some .retransPbu →
        d.tun.tq.task (.bce p) = some .retransPbu) := by
  obtain ⟨opened, added, level, frame⟩ := lmaReg_ok reg
  obtain ⟨tunnel, entry, log, tasks⟩ := tunnelAdd_ok added
  have forwarded := lmaForward_entry conf opened bce
  have settled : ((opened.lmaForward conf bce).heap bce).Settled := by
    rw [forwarded]
    rfl
  have stillPmip : ((opened.lmaForward conf bce).heap bce).type = .pmip := by
    rw [forwarded, entry]
    exact isPmip
  have isLog : (opened.lmaForward conf bce).log =
      if conf.tunnelingEnabled then
        .routeAdd ((opened.lmaForward conf bce).heap bce).tunnel .mip6
          (convertId2Addr ((opened.lmaForward conf bce).heap bce).mnPrefix
            ((opened.lmaForward conf bce).heap bce).mnSuffix) 128 ::
          .tunnelAdd ((opened.lmaForward conf bce).heap bce).mnServMagAddr
            ((opened.lmaForward conf bce).heap bce).tunnel :: d.log
      else .tunnelAdd ((opened.lmaForward conf bce).heap bce).mnServMagAddr
        ((opened.lmaForward conf bce).heap bce).tunnel :: d.log := by
    rw [lmaForward_log, log, forwarded, entry]
    rfl
  have sameMag := congrArg PmipEntry.mnServMagAddr frame.entry
  have sameTunnel := congrArg PmipEntry.tunnel frame.entry
  simp only [PmipEntry.content] at sameMag sameTunnel
  refine ⟨PmipEntry.settled_content frame.entry settled, fun account => ?_, ?_, ?_, ?_⟩
  · rw [level.books, isLog, opened_unit stillPmip settled, PmipEntry.unit_content frame.entry]
  · apply frame.logged.subset
    rw [sameMag, sameTunnel, isLog]
    split <;> simp
  · intro mag other later
    have before := level.released mag other later
    rw [isLog] at before
    split at before <;> simpa using before
  · intro p later
    have before := level.tasks p later
    have same : (opened.lmaForward conf bce).tun.tq.task = opened.tun.tq.task := by
      simp only [lmaForward, lmaSetupRoute]
      split <;> rfl
    rw [same, tasks] at before
    exact before

theorem closed_unit {e : PmipEntry} (isPmip : e.type = .pmip) (log : List Effect)
    (account : Account) :
    balance (.tunnelDel e.mnServMagAddr e.tunnel ::
      if conf.tunnelingEnabled then .routeDel e.tunnel .mip6 e.mnAddr 128 :: log else log) account =
      balance log account - e.unit conf account := by
  cases account with
  | tunnel mag =>
      split <;> simp only [balance_cons, Effect.posting, PmipEntry.unit, PmipEntry.Holds, isPmip,
        true_and] <;> split <;> omega
  | route dst oif =>
      split
      · rename_i tunnelling
        simp only [balance_cons, Effect.posting, PmipEntry.unit, PmipEntry.Holds, isPmip,
          tunnelling, true_and]
        split <;> omega
      · rename_i plain
        have unheld : ¬ e.Holds conf (.route dst oif) := fun holds => plain holds.1
        simp [balance_cons, Effect.posting, PmipEntry.unit, unheld]

theorem lmaRelease_ok (settled : (d.heap bce).Settled)
    (released : d.lmaRelease conf env bce = .ok d') :
    d'.log = .tunnelDel (d.heap bce).mnServMagAddr (d.heap bce).tunnel ::
        (if conf.tunnelingEnabled then
          .routeDel (d.heap bce).tunnel .mip6 (d.heap bce).mnAddr 128 :: d.log
        else d.log) ∧
      ∀ p, d'.tun.tq.task (.bce p) = d.tun.tq.task (.bce p) := by
  simp only [lmaRelease] at released
  obtain ⟨_, log, tasks⟩ := tunnelDel_ok released
  have isAddr : convertId2Addr (d.heap bce).mnPrefix (d.heap bce).mnSuffix = (d.heap bce).mnAddr :=
    settled.symm
  have entry : (d.getMnAddr bce).heap bce = d.heap bce := by
    simp only [getMnAddr, modify, Function.update_self, isAddr]
  have same : (Daemon.lmaRemoveRoute conf (d.getMnAddr bce) ((d.getMnAddr bce).heap bce).mnAddr
      ((d.getMnAddr bce).heap bce).tunnel).heap bce = d.heap bce := by
    simp only [lmaRemoveRoute]
    split <;> exact entry
  constructor
  · rw [log, same, entry]
    simp only [lmaRemoveRoute]
    split <;> rfl
  · intro p
    rw [tasks p]
    simp only [lmaRemoveRoute]
    split <;> rfl

theorem lmaDereg_books (isPmip : (d.heap bce).type = .pmip) (settled : (d.heap bce).Settled)
    {seqno : Option UInt16} (dereg : d.lmaDereg conf env bce seqno = .ok d') :
    (∀ account, balance d'.log account =
        balance d.log account - (d.heap bce).unit conf account) ∧
      (∀ mag tunnel, .tunnelDel mag tunnel ∈ d'.log → .tunnelDel mag tunnel ∈ d.log ∨
        mag = (d.heap bce).mnServMagAddr ∧ tunnel = (d.heap bce).tunnel) ∧
      (∀ p, d'.tun.tq.task (.bce p) = some .retransPbu →
        d.tun.tq.task (.bce p) = some .retransPbu) := by
  simp only [lmaDereg] at dereg
  obtain ⟨closed, released, dereg⟩ := bind_eq_ok.mp dereg
  obtain ⟨unrouted, clients, done⟩ := bind_eq_ok.mp dereg
  have level : Level closed d' := by
    cases done
    exact (((level_removeClientRoute clients).trans (level_link unrouted _ _).2).trans
      (level_acknowledge conf _ env bce seqno)).trans (level_modify _ bce _)
  have stopped : ((d.delTask bce).heap bce).Settled := settled
  obtain ⟨log, tasks⟩ := lmaRelease_ok stopped released
  refine ⟨fun account => ?_, fun mag tunnel later => ?_, fun p later => ?_⟩
  · rw [level.books, log]
    exact closed_unit isPmip d.log account
  · have before := level.released mag tunnel later
    rw [log] at before
    rcases List.mem_cons.mp before with here | earlier
    · cases here
      exact Or.inr ⟨rfl, rfl⟩
    · have sameLog : (d.delTask bce).log = d.log := rfl
      rw [sameLog] at earlier
      left
      split at earlier
      · simpa using earlier
      · exact earlier
  · have before := level.tasks p later
    rw [tasks p] at before
    exact before

/-- An update that the prefix map does not contradict, from the MAG that serves
the entry or for an entry that none serves yet, books nothing. -/
theorem lmaUpdate_level {info : MsgInfo}
    (agrees : ∀ pfx ∈ HnpCache.lmaMnidHnpMap d.hnp (eui64ToEui48 info.mnIid), pfx = info.mnPrefix)
    (served : (d.heap bce).mnServMagAddr = in6addrAny ∨ (d.heap bce).mnServMagAddr = info.src)
    (update : d.lmaUpdateBindingEntry conf env bce info = .ok d') : Level d d' := by
  simp only [lmaUpdateBindingEntry] at update
  obtain ⟨checked, checks, done⟩ := bind_eq_ok.mp update
  have level : Level d checked := by
    apply (level_modify d bce _).trans
    simp only [lmaCheckPrefix] at checks
    split at checks
    · cases checks
      exact Level.refl _
    · rename_i pfx mapped
      simp only [modify, Function.update_self] at mapped
      have isPrefix := agrees pfx mapped
      rw [if_pos isPrefix] at checks
      simp only [modify, Function.update_self] at checks
      split at checks
      · cases checks
        exact ⟨rfl, fun _ _ same => same, fun _ same => same⟩
      · rename_i known
        rcases served with none_ | same
        · exact absurd none_ known
        · rw [if_neg (by simpa using same)] at checks
          cases checks
          exact ⟨rfl, fun _ _ same => same, fun _ same => same⟩
  cases done
  exact ((level.trans (level_modify _ bce _)).trans (level_modify _ bce _)).trans
    (level_modify _ bce _)

end Booked

/-! ## The books -/

def held (conf : Conf) (d : Daemon) (account : Account) : Nat :=
  d.entries.countP fun bce => (d.heap bce).Holds conf account

theorem held_cons (conf : Conf) (heap : Nat → PmipEntry) (bce : Nat) (rest : List Nat)
    (account : Account) :
    (((bce :: rest).countP fun p => (heap p).Holds conf account : Nat) : Int) =
      (rest.countP fun p => (heap p).Holds conf account : Nat) +
        (heap bce).unit conf account := by
  rw [List.countP_cons]
  simp only [PmipEntry.unit]
  by_cases holds : (heap bce).Holds conf account <;> simp [holds]

theorem held_congr (conf : Conf) {heap heap' : Nat → PmipEntry} {entries : List Nat}
    (same : ∀ p ∈ entries, heap' p = heap p) (account : Account) :
    (entries.countP fun p => (heap' p).Holds conf account) =
      entries.countP fun p => (heap p).Holds conf account := by
  apply List.countP_congr
  intro p member
  simp only [same p member]

theorem level_pmipCacheAdd (conf : Conf) (d : Daemon) (env : Env) (bce : Nat) :
    Level d (d.pmipCacheAdd conf env bce) := by
  have numbered : ∀ d : Daemon, Level d (d.nextBid bce) := fun _ =>
    ⟨rfl, fun _ _ same => same, fun _ same => same⟩
  have linked : ∀ d : Daemon, Level d (d.pmipcacheInsert env bce).1 := by
    intro d
    simp only [pmipcacheInsert]
    split <;> exact ⟨rfl, fun _ _ same => same, fun _ same => same⟩
  exact pmipCacheAdd_relates Level Level.trans numbered linked (fun d => level_modify d bce)
    (fun d => level_cacheStart d env bce) conf d

/-- For each MAG the references to its tunnel and for each address and tunnel
the forward routes are as many as the bindings they belong to, and no tunnel is
released for a MAG that was not added for it. -/
def BooksBalance (conf : Conf) (d : Daemon) : Prop :=
  (∀ account, balance d.log account = d.held conf account) ∧
    (∀ bce ∈ d.entries,
      .tunnelAdd (d.heap bce).mnServMagAddr (d.heap bce).tunnel ∈ d.log) ∧
    ∀ mag tunnel, .tunnelDel mag tunnel ∈ d.log → .tunnelAdd mag tunnel ∈ d.log

structure BooksOk (conf : Conf) (d : Daemon) : Prop extends LmaArmed d where
  settled : ∀ bce ∈ d.entries, (d.heap bce).Settled
  tasks : ∀ bce, d.tun.tq.task (.bce bce) ≠ some .retransPbu
  balanced : ∀ account, balance d.log account = d.held conf account
  issued : ∀ bce ∈ d.entries, .tunnelAdd (d.heap bce).mnServMagAddr (d.heap bce).tunnel ∈ d.log
  released : ∀ mag tunnel, .tunnelDel mag tunnel ∈ d.log → .tunnelAdd mag tunnel ∈ d.log

/-- A new registration finds memory for its node; a refresh asks for the address
that the binding's route is for, and the map does not give the node another
prefix. -/
def KeepsUnits (conf : Conf) (d : Daemon) (env : Env) (info : MsgInfo) : Prop :=
  (d.cached info.mnNai info.src = none → env.nodeAlloc = true) ∧
    ∀ bce ∈ d.cached info.mnNai info.src,
      (conf.tunnelingEnabled = true →
        convertId2Addr info.mnPrefix info.mnIid = (d.heap bce).mnAddr) ∧
      ∀ pfx ∈ HnpCache.lmaMnidHnpMap d.hnp (eui64ToEui48 info.mnIid), pfx = info.mnPrefix

instance (conf : Conf) (d : Daemon) (env : Env) (info : MsgInfo) :
    Decidable (d.KeepsUnits conf env info) :=
  inferInstanceAs (Decidable ((_ → _) ∧ ∀ _, _ → (_ → _) ∧ ∀ _, _ → _))

def KeepsBooks (conf : Conf) (dupBeyond : Nat → Bool) (d : Daemon) : LmaInput → Prop
  | .message m env =>
      m.src ≠ in6addrAny ∧ (Registers (parsedPbu conf dupBeyond m) →
        d.KeepsUnits conf env (parsedPbu conf dupBeyond m))
  | .fire _ => True

instance (conf : Conf) (dupBeyond : Nat → Bool) (d : Daemon) :
    (input : LmaInput) → Decidable (d.KeepsBooks conf dupBeyond input)
  | .message _ _ => inferInstanceAs (Decidable (_ ∧ (_ → _)))
  | .fire _ => .isTrue trivial

namespace BooksOk

variable {conf : Conf} {d d' : Daemon} {env : Env} {info : MsgInfo}

theorem balance' (ok : BooksOk conf d) : BooksBalance conf d := ⟨ok.balanced, ok.issued, ok.released⟩

theorem delete (ok : BooksOk conf d) {bce : Nat} {mid : Daemon} {seqno : Option UInt16}
    (member : bce ∈ d.entries) {start : Daemon} (frame : Frame PmipEntry.content bce d start)
    (level : Level d start) (dereg : start.lmaDereg conf env bce seqno = .ok mid) :
    BooksOk conf (mid.pmipBceDelete bce) := by
  have isLive := ok.live bce member
  have work := frame.binding.owner.trans ((frame_lmaDereg conf start env bce seqno).of_ok dereg)
  have armed := ok.toLmaArmed.delete member work
  have started := PmipEntry.settled_content frame.entry (ok.settled bce member)
  have isPmip : (start.heap bce).type = .pmip := by
    have same := congrArg PmipEntry.type frame.entry
    exact same.trans (ok.types bce member)
  obtain ⟨books, released, tasks⟩ := lmaDereg_books isPmip started dereg
  have removed := ok.toLmaArmed.removed member work
  have remaining : ∀ p ∈ (mid.pmipBceDelete bce).entries,
      (mid.pmipBceDelete bce).heap p = d.heap p := by
    intro p present
    have different : p ≠ bce := by
      intro same
      subst same
      exact (ok.toHashOk.frame_owner isLive work).delete_notMem present
    rw [delete_heap, work.others p different]
  have still : ∀ p ∈ (mid.pmipBceDelete bce).entries, p ∈ d.entries := fun p present =>
    removed.mem_iff.mpr (List.mem_cons_of_mem _ present)
  have sameLog : (mid.pmipBceDelete bce).log = mid.log := rfl
  refine { armed with
    settled := ?_
    tasks := ?_
    balanced := ?_
    issued := ?_
    released := ?_ }
  · intro p present
    rw [remaining p present]
    exact ok.settled p (still p present)
  · intro p queued
    have shape : (mid.pmipBceDelete bce).tun.tq.task = mid.tun.tq.task := rfl
    rw [shape] at queued
    exact ok.tasks p (level.tasks p (tasks p queued))
  · intro account
    have count := removed.countP_eq fun p => (d.heap p).Holds conf account
    have split := held_cons conf d.heap bce (mid.pmipBceDelete bce).entries account
    rw [sameLog, books, level.books, ok.balanced, PmipEntry.unit_content frame.entry]
    simp only [held]
    rw [held_congr conf remaining account, count, split]
    omega
  · intro p present
    rw [remaining p present, sameLog]
    exact work.logged.subset (ok.issued p (still p present))
  · intro mag tunnel later
    apply work.logged.subset
    rcases released mag tunnel later with before | ⟨rfl, rfl⟩
    · exact ok.released mag tunnel (level.released mag tunnel before)
    · have isMag := congrArg PmipEntry.mnServMagAddr frame.entry
      have isTunnel := congrArg PmipEntry.tunnel frame.entry
      simp only [PmipEntry.content] at isMag isTunnel
      rw [isMag, isTunnel]
      exact ok.issued bce member

theorem modify_outside (ok : BooksOk conf d) {bce : Nat} (outside : bce ∉ d.entries)
    (write : PmipEntry → PmipEntry) : BooksOk conf (d.modify bce write) := by
  have kept : ∀ p ∈ d.entries, (d.modify bce write).heap p = d.heap p := by
    intro p member
    have different : p ≠ bce := fun here => outside (here ▸ member)
    simp only [modify, Function.update_of_ne different]
  refine { ok.toLmaOk.modify_outside outside write with
    armed := ok.armed
    settled := ?_
    tasks := ok.tasks
    balanced := ?_
    issued := ?_
    released := ok.released }
  · intro p member
    rw [kept p member]
    exact ok.settled p member
  · intro account
    have same : (d.modify bce write).entries = d.entries := rfl
    rw [held, same, held_congr conf kept account]
    exact ok.balanced account
  · intro p member
    rw [kept p member]
    exact ok.issued p member

theorem registered (ok : BooksOk conf d) (missing : d.cached info.mnNai info.src = none)
    (asks : Registers info) (memory : env.nodeAlloc = true) {updated filled : Daemon}
    (update : (d.admitted info).lmaUpdateBindingEntry conf env d.top info = .ok updated)
    (reg : updated.lmaReg conf env d.top = .ok filled) :
    BooksOk conf (filled.pmipCacheAdd conf env d.top) := by
  have added := pmipCacheAdd_added conf filled env d.top
  obtain ⟨_, frame, _⟩ := ok.toLmaOk.admission update reg
  obtain ⟨notMem, entries, old, new⟩ := ok.toLmaOk.registered missing update reg
  have joined := ok.toLmaArmed.joined missing memory update reg
  have isPmip : (updated.heap d.top).type = .pmip := by
    rw [lmaUpdate_entry update]
    simp [PmipEntry.updated, admitted, allocated, PmipEntry.blank]
  have updates : Level (d.admitted info) updated := by
    apply lmaUpdate_level ?_ (Or.inl ?_) update
    · exact HnpCache.lmaMnidHnpMap_insert d.hnp _ _ _
    · simp [admitted, allocated, PmipEntry.blank]
  obtain ⟨settled, books, issued, released, tasks⟩ := lmaReg_books isPmip reg
  have links := level_pmipCacheAdd conf filled env d.top
  have others : ∀ p ∈ d.entries, (filled.pmipCacheAdd conf env d.top).heap p = d.heap p := by
    intro p member
    have different : p ≠ d.top := fun here => notMem (here ▸ member)
    rw [added.others p different, old p member]
  have cases_ : ∀ p ∈ (filled.pmipCacheAdd conf env d.top).entries, p = d.top ∨ p ∈ d.entries :=
    fun p member => List.mem_cons.mp (joined.mem_iff.mp member)
  have logs : d.log <:+ (filled.pmipCacheAdd conf env d.top).log := frame.logged.trans added.logged
  refine { ok.toLmaArmed.move (fun _ _ => memory) (LmaMove.registered missing asks update reg) with
    settled := ?_
    tasks := ?_
    balanced := ?_
    issued := ?_
    released := ?_ }
  · intro p member
    rcases cases_ p member with rfl | before
    · exact PmipEntry.settled_content added.entry settled
    · rw [others p before]
      exact ok.settled p before
  · intro p queued
    exact ok.tasks p (updates.tasks p (tasks p (links.tasks p queued)))
  · intro account
    have count := joined.countP_eq fun p =>
      ((filled.pmipCacheAdd conf env d.top).heap p).Holds conf account
    have split := held_cons conf (filled.pmipCacheAdd conf env d.top).heap d.top d.entries account
    have before : balance (d.admitted info).log account = d.held conf account := ok.balanced account
    rw [links.books, books, updates.books, before, ← PmipEntry.unit_content added.entry]
    simp only [held]
    rw [count, split, held_congr conf others account]
  · intro p member
    rcases cases_ p member with rfl | before
    · have isMag := congrArg PmipEntry.mnServMagAddr added.entry
      have isTunnel := congrArg PmipEntry.tunnel added.entry
      simp only [PmipEntry.content] at isMag isTunnel
      rw [isMag, isTunnel]
      exact added.logged.subset issued
    · rw [others p before]
      exact logs.subset (ok.issued p before)
  · intro mag tunnel later
    apply logs.subset
    apply ok.released
    exact updates.released mag tunnel (released mag tunnel (links.released mag tunnel later))

theorem refreshed_unit {bce : Nat} {updated : Daemon}
    (served : info.src = (d.heap bce).mnServMagAddr)
    (sameAddr : conf.tunnelingEnabled = true →
      convertId2Addr info.mnPrefix info.mnIid = (d.heap bce).mnAddr)
    (update : d.lmaUpdateBindingEntry conf env bce info = .ok updated) :
    (((updated.lmaRegNoNewTunnel conf env bce).getMnAddr bce).heap bce).content =
      ((d.heap bce).updated conf info).content ∧
    ∀ account, ((d.heap bce).updated conf info).Holds conf account ↔
      (d.heap bce).Holds conf account := by
  have answered := (frame_lmaRegNoNewTunnel conf updated env bce).entry
  rw [lmaUpdate_entry update] at answered
  have settled : ((d.heap bce).updated conf info).Settled := rfl
  have stays := PmipEntry.settled_content answered settled
  have isAddr : convertId2Addr ((updated.lmaRegNoNewTunnel conf env bce).heap bce).mnPrefix
      ((updated.lmaRegNoNewTunnel conf env bce).heap bce).mnSuffix =
      ((updated.lmaRegNoNewTunnel conf env bce).heap bce).mnAddr := stays.symm
  constructor
  · rw [← answered]
    simp only [getMnAddr, modify, Function.update_self, isAddr]
  · intro account
    cases account with
    | tunnel mag => simp only [PmipEntry.Holds, PmipEntry.updated, served]
    | route dst oif =>
        apply and_congr_right
        intro tunnelling
        simp only [PmipEntry.updated, sameAddr tunnelling]

theorem refreshed (ok : BooksOk conf d) {bce : Nat} {updated : Daemon}
    (found : d.cached info.mnNai info.src = some bce) (asks : Registers info)
    (sameAddr : conf.tunnelingEnabled = true →
      convertId2Addr info.mnPrefix info.mnIid = (d.heap bce).mnAddr)
    (agrees : ∀ pfx ∈ HnpCache.lmaMnidHnpMap d.hnp (eui64ToEui48 info.mnIid), pfx = info.mnPrefix)
    (update : d.lmaUpdateBindingEntry conf env bce info = .ok updated) :
    BooksOk conf ((updated.lmaRegNoNewTunnel conf env bce).getMnAddr bce) := by
  have served := cached_mag found
  have member := (cached_some found).1
  have frame := frame_refreshed (Or.inl rfl) update
  obtain ⟨content, alike⟩ := refreshed_unit served sameAddr update
  have level : Level d ((updated.lmaRegNoNewTunnel conf env bce).getMnAddr bce) :=
    ((lmaUpdate_level agrees (Or.inr served.symm) update).trans
      (level_lmaRegNoNewTunnel conf updated env bce)).trans (level_modify _ bce _)
  have unused : d.FindsMemory env info := by
    intro _ missing
    rw [found] at missing
    cases missing
  refine { ok.toLmaArmed.move unused (LmaMove.refreshed found asks (Or.inl rfl) update) with
    settled := ?_
    tasks := fun p queued => ok.tasks p (level.tasks p queued)
    balanced := ?_
    issued := ?_
    released := ?_ }
  · intro p present
    by_cases here : p = bce
    · rw [here]
      exact PmipEntry.settled_content content rfl
    · rw [frame.others p here]
      exact ok.settled p (frame.entries ▸ present)
  · intro account
    rw [level.books, ok.balanced]
    simp only [held]
    rw [frame.entries]
    have units : ∀ p, (((updated.lmaRegNoNewTunnel conf env bce).getMnAddr bce).heap p).unit conf
        account = (d.heap p).unit conf account := by
      intro p
      by_cases here : p = bce
      · rw [here, PmipEntry.unit_content content]
        simp only [PmipEntry.unit, alike account]
      · rw [frame.others p here]
    congr 1
    apply List.countP_congr
    intro p _
    have same := units p
    simp only [PmipEntry.unit] at same
    by_cases holds : (d.heap p).Holds conf account
    · simp only [holds, if_true] at same
      by_contra differs
      simp_all
    · simp only [holds, if_false] at same
      by_contra differs
      simp_all
  · intro p present
    apply frame.logged.subset
    by_cases here : p = bce
    · have isMag := congrArg PmipEntry.mnServMagAddr content
      have isTunnel := congrArg PmipEntry.tunnel content
      simp only [PmipEntry.content, PmipEntry.updated] at isMag isTunnel
      rw [here, isMag, isTunnel, served]
      exact ok.issued bce member
    · rw [frame.others p here]
      exact ok.issued p (frame.entries ▸ present)
  · intro mag tunnel later
    exact frame.logged.subset (ok.released mag tunnel (level.released mag tunnel later))

theorem retimed (ok : BooksOk conf d) {tun : Tunnels}
    (fewer : ∀ bce, .bce bce ∈ tun.tq.list → .bce bce ∈ d.tun.tq.list)
    (tasks : tun.tq.task = d.tun.tq.task) : BooksOk conf { d with tun := tun } where
  placed := ok.placed
  keys := ok.keys
  live := ok.live
  below := ok.below
  queued := fun bce queued => ok.queued bce (fewer bce queued)
  types := ok.types
  armed := fun bce queued => ok.armed bce (fewer bce queued)
  settled := ok.settled
  tasks := by
    intro bce
    rw [tasks]
    exact ok.tasks bce
  balanced := ok.balanced
  issued := ok.issued
  released := ok.released

theorem tick (ok : BooksOk conf d) (ticked : LmaTick conf env d d') : BooksOk conf d' := by
  have fewer : ∀ element bce, .bce bce ∈ (d.tun.tq.delTask element).list →
      .bce bce ∈ d.tun.tq.list := fun element bce remains =>
    ((TQueue.mem_delTask _ _ _).mp remains).1
  cases ticked with
  | idle => exact ok
  | @expired bce mid queued dereg =>
      have level : Level d (d.popped (.bce bce)) :=
        ⟨rfl, fun _ _ same => same, fun _ same => same⟩
      exact ok.delete (ok.armed bce queued) (frame_popped _ d bce) level dereg
  | retransmitted queued task taken => exact absurd task (ok.tasks _)
  | @popped bce queued odd => exact ok.retimed (fewer (.bce bce)) rfl
  | @tunnelExpired mag queued => exact ok.retimed (fewer (.tunnel mag)) rfl

end BooksOk

theorem booksOk_init (conf : Conf) {tun : Tunnels} (idle : tun.tq = TQueue.empty TqElem)
    (hnp : List MnidHnp) : BooksOk conf (init tun hnp) :=
  { lmaOk_init tun hnp (by rw [idle]; exact fun _ => List.not_mem_nil) with
    armed := by
      intro bce queued
      have none_ : .bce bce ∈ tun.tq.list := queued
      rw [idle] at none_
      cases none_
    settled := by simp [entries, init]
    tasks := by
      intro bce
      change tun.tq.task _ ≠ _
      rw [idle]
      simp [TQueue.empty]
    balanced := fun account => by simp [init, balance, held, entries]
    issued := by simp [entries, init]
    released := by simp [init] }

theorem lmaStep_books {conf : Conf} (isLma : conf.mip6Entity = .ha) {dupBeyond : Nat → Bool}
    (d : Daemon) (input : LmaInput) (d' : Daemon) (ok : BooksOk conf d)
    (keeps : KeepsBooks conf dupBeyond d input)
    (taken : d.lmaStep conf dupBeyond input = .ok d') : BooksOk conf d' := by
  cases input with
  | fire env => exact ok.tick (fire_tick isLma taken)
  | message m env =>
      obtain ⟨isSrc, isMag⟩ := parsedPbu_src conf dupBeyond m
      obtain ⟨specified, keeps⟩ := keeps
      rw [← isSrc] at specified
      cases lmaFsm_move ok.toLmaOk (isMag.trans isSrc.symm) taken with
      | ignored => exact ok
      | registered missing asks update reg =>
          exact ok.registered missing asks ((keeps asks).1 missing) update reg
      | refreshed found asks began update =>
          obtain ⟨sameAddr, agrees⟩ := (keeps asks).2 _ found
          rcases began with rfl | ⟨unspecified, _⟩
          · exact ok.refreshed found asks sameAddr agrees update
          · exact absurd unspecified specified
      | @deregistered bce mid found asks dereg =>
          have member := (cached_some found).1
          have gone : bce ∉ (mid.pmipBceDelete bce).entries :=
            (ok.toHashOk.frame_owner (ok.live bce member)
              ((frame_lmaDereg conf d env bce _).of_ok dereg)).delete_notMem
          exact (ok.delete member (Frame.refl _ bce d) (Level.refl d) dereg).modify_outside gone _

/-- In every run whose registrations find memory for their nodes and whose
refreshes keep the address of their binding, the books balance at the end. -/
theorem lma_books_balance (conf : Conf) (isLma : conf.mip6Entity = .ha) (dupBeyond : Nat → Bool)
    (tun : Tunnels) (idle : tun.tq = TQueue.empty TqElem) (hnp : List MnidHnp)
    (inputs : List LmaInput)
    (meets : Meets (lmaStep conf dupBeyond) (KeepsBooks conf dupBeyond) (init tun hnp) inputs)
    (final : Daemon) (finished : run (lmaStep conf dupBeyond) (init tun hnp) inputs = .ok final) :
    BooksBalance conf final :=
  (run_invariant (lmaStep_books isLma) (booksOk_init conf idle hnp) meets finished).balance'

/-- A registration and its refresh. -/
theorem lma_books_balance_refreshed :
    ∃ final, run (lmaStep (confDynamic .ha) fun _ => false) (init Tunnels.init [])
        [.message (bareUpdate 1 10) (Env.ample ⟨100, 0⟩ 10),
          .message (bareUpdate 2 10) (Env.ample ⟨110, 0⟩ 10)] = .ok final ∧
      final.entries = [0] ∧ BooksBalance (confDynamic .ha) final := by
  refine ⟨_, rfl, by decide, ?_⟩
  exact lma_books_balance (confDynamic .ha) rfl (fun _ => false) Tunnels.init rfl []
    [.message (bareUpdate 1 10) (Env.ample ⟨100, 0⟩ 10),
      .message (bareUpdate 2 10) (Env.ample ⟨110, 0⟩ 10)] (by decide) _ rfl

def prefixUpdate (seqno lifetime : UInt8) : Received :=
  { bareUpdate seqno lifetime with
    mh := fun i =>
      if i < 12 then (bareUpdate seqno lifetime).mh i
      else ([0x16, 18, 0, 64, 0x20, 0x01] : List UInt8).getD (i - 12) 0
    len := 32 }

/-- A registration and a refresh with another prefix: the tunnel of the binding
is released and not added again. -/
theorem lma_books_unbalanced :
    ¬ ∀ (inputs : List LmaInput) (final : Daemon),
      (∀ m env, .message m env ∈ inputs → m.src ≠ in6addrAny) →
      run (lmaStep (confDynamic .ha) fun _ => false) (init Tunnels.init []) inputs = .ok final →
      BooksBalance (confDynamic .ha) final := by
  intro claimed
  have balanced := claimed
    [.message (bareUpdate 1 10) (Env.ample ⟨100, 0⟩ 10),
      .message (prefixUpdate 2 10) (Env.ample ⟨110, 0⟩ 10)] _ ?_ rfl
  · have counts := balanced.1 (.tunnel (bareUpdate 1 10).src)
    revert counts
    decide
  · intro m env sent
    simp only [List.mem_cons, List.not_mem_nil, or_false, LmaInput.message.injEq] at sent
    rcases sent with ⟨rfl, _⟩ | ⟨rfl, _⟩
    · decide
    · decide

end Daemon

end OaiPmip
