import OaiPmip.LmaMoves
import OaiPmip.MagMoves

/-!
# Updates that arrive out of order

The updates that one gateway sends for one node reach the anchor in any order,
some of them more than once and some not at all.  `lma_fsm` stores the sequence
number and the time stamp of an update and never compares them, so the binding
is always that of the update that arrived last.  It is the binding of the newest
update as long as nothing that differs from it arrives later.
-/

set_option autoImplicit false

namespace OaiPmip

open OaiPmip.HashKeys OaiPmip.Msgs OaiPmip.Runs

/-- The update as `mh_pbu_parse` reads it. -/
def Pbu.fields (pbu : Pbu) : PbuFields where
  flags := ntohs pbu.flags
  lifetime := pbu.lifetime
  seqno := pbu.seqno
  options := ⟨some pbu.mnNai, some pbu.mnPrefix, some pbu.mnId, pbu.timestamp⟩

def Pbu.time (pbu : Pbu) : Ip6ts := pbu.timestamp.getD ⟨0, 0⟩

def Pbu.stamp (pbu : Pbu) : Nat :=
  (pbu.time.first.toNat * 2 ^ 32 + pbu.time.second.toNat) * 2 ^ 16 + pbu.seqno.toNat

structure Delivery where
  pbu : Pbu
  iif : Int
  env : Env

namespace Daemon

def emitted (gateway : Daemon) (nai : Nai) (mag : In6Addr) : List Pbu :=
  gateway.log.filterMap fun
    | .sendPbu src _ pbu _ => if src = mag ∧ pbu.mnNai = nai then some pbu else none
    | _ => none

def deliveredInfo (conf : Conf) (mag : In6Addr) (x : Delivery) : MsgInfo :=
  fillPbu (pbuAddresses MsgInfo.zero mag conf.lmaAddress x.iif) x.pbu.fields

def deliver (conf : Conf) (mag : In6Addr) (d : Daemon) (x : Delivery) : Outcome :=
  d.lmaFsm conf x.env (deliveredInfo conf mag x)

def Agrees (d : Daemon) (mag : In6Addr) (pbu : Pbu) : Prop :=
  ((∃ bce, d.cached pbu.mnNai mag = some bce) ↔ pbu.lifetime ≠ 0) ∧
    ∀ bce, d.cached pbu.mnNai mag = some bce →
      (d.heap bce).seqnoIn = pbu.seqno ∧ (d.heap bce).timestamp = pbu.time ∧
        (d.heap bce).mnPrefix = pbu.mnPrefix

def SameBinding (first second : Pbu) : Prop :=
  first.lifetime = 0 ∧ second.lifetime = 0 ∨
    first.lifetime ≠ 0 ∧ second.lifetime ≠ 0 ∧ first.seqno = second.seqno ∧
      first.time = second.time ∧ first.mnPrefix = second.mnPrefix

instance (first second : Pbu) : Decidable (SameBinding first second) :=
  inferInstanceAs (Decidable (_ ∨ _))

theorem sameBinding_refl (pbu : Pbu) : SameBinding pbu pbu := by
  by_cases zero : pbu.lifetime = 0
  · exact Or.inl ⟨zero, zero⟩
  · exact Or.inr ⟨zero, zero, rfl, rfl, rfl⟩

def IsNewest (sent : List Pbu) (newest : Pbu) : Prop :=
  newest ∈ sent ∧ ∀ pbu ∈ sent, pbu.stamp ≤ newest.stamp

/-- From the arrival of the newest update on, the binding is the one it asks
for, and older updates change nothing. -/
def FollowsNewest (conf : Conf) (mag : In6Addr) (start : Daemon) (sent : List Pbu)
    (deliveries : List Delivery) : Prop :=
  ∀ newest, IsNewest sent newest →
    (∀ earlier later d, deliveries = earlier ++ later → newest ∈ earlier.map Delivery.pbu →
      run (deliver conf mag) start earlier = .ok d → Agrees d mag newest) ∧
    (∀ earlier x later d d', deliveries = earlier ++ x :: later →
      newest ∈ earlier.map Delivery.pbu → x.pbu.stamp < newest.stamp →
      run (deliver conf mag) start earlier = .ok d → d.deliver conf mag x = .ok d' → d' = d)

def NothingElseAfter (sent : List Pbu) (deliveries : List Delivery) : Prop :=
  ∀ newest ∈ sent, (∀ pbu ∈ sent, pbu.stamp ≤ newest.stamp) →
    deliveries.Pairwise fun earlier later =>
      earlier.pbu = newest → SameBinding later.pbu newest

instance (sent : List Pbu) (deliveries : List Delivery) :
    Decidable (NothingElseAfter sent deliveries) :=
  inferInstanceAs (Decidable (∀ newest ∈ sent, (∀ pbu ∈ sent, pbu.stamp ≤ newest.stamp) →
    deliveries.Pairwise fun earlier later =>
      earlier.pbu = newest → SameBinding later.pbu newest))

section Delivered
variable {conf : Conf} {mag : In6Addr} {d d' : Daemon} {x : Delivery}

theorem registers_iff : Registers (deliveredInfo conf mag x) ↔ x.pbu.lifetime ≠ 0 := by
  have lifetime : (deliveredInfo conf mag x).lifetime.tvSec = 4 * x.pbu.lifetime.toNat := rfl
  have event : (deliveredInfo conf mag x).msgEvent = .hasPBU := rfl
  simp only [Registers, event, lifetime, true_and]
  constructor
  · intro positive zero
    rw [zero] at positive
    simp at positive
  · intro nonzero
    have different : x.pbu.lifetime.toNat ≠ 0 := fun zero => nonzero (UInt16.toNat_inj.mp zero)
    omega

theorem agrees_of_updated (ok : LmaOk d') {bce : Nat} {base : PmipEntry} (member : bce ∈ d'.entries)
    (isKey : d'.key bce = ⟨x.pbu.mnNai, mag⟩) (asks : x.pbu.lifetime ≠ 0)
    (kept : (d'.heap bce).untunnelled =
      (base.updated conf (deliveredInfo conf mag x)).untunnelled) : Agrees d' mag x.pbu := by
  have found := ok.toHashOk.cached_of_key member isKey
  refine ⟨⟨fun _ => asks, fun _ => ⟨bce, found⟩⟩, fun other same => ?_⟩
  obtain rfl := Option.some.inj (found.symm.trans same)
  have isSeqno := congrArg PmipEntry.seqnoIn kept
  have isTime := congrArg PmipEntry.timestamp kept
  have isPrefix := congrArg PmipEntry.mnPrefix kept
  exact ⟨isSeqno, isTime, isPrefix⟩

theorem agrees_of_none (missing : d'.cached x.pbu.mnNai mag = none) (zero : x.pbu.lifetime = 0) :
    Agrees d' mag x.pbu := by
  refine ⟨⟨?_, fun asks => absurd zero asks⟩, fun bce found => ?_⟩
  · intro given
    obtain ⟨bce, found⟩ := given
    rw [missing] at found
    cases found
  · rw [missing] at found
    cases found

theorem deliver_agrees (ok : LmaOk d) (memory : x.env.entryAlloc = true ∧ x.env.nodeAlloc = true)
    (taken : d.deliver conf mag x = .ok d') : LmaOk d' ∧ Agrees d' mag x.pbu := by
  have moved := lmaFsm_move ok rfl taken
  have ok' := ok.move moved
  refine ⟨ok', ?_⟩
  cases moved with
  | ignored missing idle =>
      apply agrees_of_none missing
      by_contra asks
      have failed := idle (registers_iff.mpr asks)
      rw [memory.1] at failed
      cases failed
  | @registered updated registered missing asks update reg =>
      obtain ⟨_, _, isKey⟩ := ok.admission update reg
      obtain ⟨_, _, _, new⟩ := ok.registered missing update reg
      have added := pmipCacheAdd_added conf registered x.env d.top
      have joined := (added.entries_perm new memory.2).1
      have linked : ((registered.pmipCacheAdd conf x.env d.top).heap d.top).untunnelled =
          (registered.heap d.top).untunnelled := by
        simp only [PmipEntry.untunnelled, added.entry]
      have filled := ((frame_lmaReg conf updated x.env d.top).of_ok reg).entry
      rw [lmaUpdate_entry update] at filled
      exact agrees_of_updated ok' (joined.mem_iff.mpr (List.mem_cons_self ..))
        (by rw [added.key, isKey]; rfl) (registers_iff.mp asks) (linked.trans filled)
  | @refreshed bce start updated found asks began update =>
      have still := (frame_refreshed began update).entries ▸ (cached_some found).1
      exact agrees_of_updated ok' still (refreshed_key update) (registers_iff.mp asks)
        (refreshed_entry update)
  | @deregistered bce mid found asks dereg =>
      have frame := (frame_lmaDereg conf d x.env bce _).of_ok dereg
      apply agrees_of_none (ok.deregistered_cached found frame)
      by_contra nonzero
      exact asks (registers_iff.mpr nonzero)

theorem deliver_run_ok (ok : LmaOk d) {deliveries : List Delivery}
    (finished : run (deliver conf mag) d deliveries = .ok d') : LmaOk d' :=
  run_invariant (fun _ _ _ ok _ taken => ok.move (lmaFsm_move ok rfl taken)) ok
    (meets_always (fun _ _ => trivial) deliveries d) finished

theorem run_agrees {start : Daemon} (ok : LmaOk start) {earlier : List Delivery}
    (memory : x.env.entryAlloc = true ∧ x.env.nodeAlloc = true)
    (finished : run (deliver conf mag) start (earlier ++ [x]) = .ok d) : Agrees d mag x.pbu := by
  obtain ⟨mid, before, last⟩ := run_append_ok finished
  obtain ⟨next, taken, done⟩ := run_cons_ok last
  cases done
  exact (deliver_agrees (deliver_run_ok ok before) memory taken).2

theorem agrees_iff_same {first second : Pbu} (sameNode : first.mnNai = second.mnNai)
    (agrees : Agrees d mag first) : Agrees d mag second ↔ SameBinding first second := by
  obtain ⟨bound, fields⟩ := agrees
  unfold Agrees
  rw [← sameNode]
  constructor
  · intro given
    obtain ⟨bound', fields'⟩ := given
    by_cases zero : first.lifetime = 0
    · left
      refine ⟨zero, ?_⟩
      by_contra nonzero
      exact bound.mp (bound'.mpr nonzero) zero
    · right
      obtain ⟨bce, found⟩ := bound.mpr zero
      obtain ⟨isSeqno, isTime, isPrefix⟩ := fields bce found
      obtain ⟨isSeqno', isTime', isPrefix'⟩ := fields' bce found
      exact ⟨zero, bound'.mp ⟨bce, found⟩, isSeqno.symm.trans isSeqno',
        isTime.symm.trans isTime', isPrefix.symm.trans isPrefix'⟩
  · intro either
    rcases either with ⟨zero, zero'⟩ | ⟨nonzero, nonzero', sameSeqno, sameTime, samePrefix⟩
    · have unbound : ¬ ∃ bce, d.cached first.mnNai mag = some bce := fun found =>
        bound.mp found zero
      exact ⟨⟨fun found => absurd found unbound, fun asks => absurd zero' asks⟩,
        fun bce found => absurd ⟨bce, found⟩ unbound⟩
    · refine ⟨⟨fun _ => nonzero', fun _ => bound.mpr nonzero⟩, fun bce found => ?_⟩
      obtain ⟨isSeqno, isTime, isPrefix⟩ := fields bce found
      exact ⟨isSeqno.trans sameSeqno, isTime.trans sameTime, isPrefix.trans samePrefix⟩

theorem deliver_idle (ok : LmaOk d) (missing : d.cached x.pbu.mnNai mag = none)
    (zero : x.pbu.lifetime = 0) (taken : d.deliver conf mag x = .ok d') : d' = d := by
  cases lmaFsm_move ok rfl taken with
  | ignored => rfl
  | registered _ asks => exact absurd zero (registers_iff.mp asks)
  | refreshed _ asks => exact absurd zero (registers_iff.mp asks)
  | deregistered found =>
      have cached : d.cached x.pbu.mnNai mag = some _ := found
      rw [missing] at cached
      cases cached

end Delivered

theorem emitted_nai {gateway : Daemon} {nai : Nai} {mag : In6Addr} {pbu : Pbu}
    (sent : pbu ∈ gateway.emitted nai mag) : pbu.mnNai = nai := by
  obtain ⟨effect, _, shown⟩ := List.mem_filterMap.mp sent
  split at shown
  · split at shown
    · rename_i isOurs
      cases shown
      exact isOurs.2
    · cases shown
  · cases shown

/-- Whatever updates of one gateway for one node reach the anchor, in any order,
the binding follows the newest of them exactly when nothing that asks for
something else arrives after it. -/
theorem binding_follows_newest_iff (conf : Conf) (isLma : conf.mip6Entity = .ha)
    (dupBeyond : Nat → Bool) (tun : Tunnels) (unarmed : ∀ bce, .bce bce ∉ tun.tq.list)
    (hnp : List MnidHnp) (inputs : List LmaInput) (start : Daemon)
    (reachable : run (lmaStep conf dupBeyond) (init tun hnp) inputs = .ok start)
    (gateway : Daemon) (nai : Nai) (mag : In6Addr) (deliveries : List Delivery)
    (sent : ∀ x ∈ deliveries, x.pbu ∈ gateway.emitted nai mag)
    (memory : ∀ x ∈ deliveries, x.env.entryAlloc = true ∧ x.env.nodeAlloc = true)
    (final : Daemon) (finished : run (deliver conf mag) start deliveries = .ok final) :
    FollowsNewest conf mag start (gateway.emitted nai mag) deliveries ↔
      NothingElseAfter (gateway.emitted nai mag) deliveries := by
  have ok := lmaRun_ok isLma unarmed reachable
  have sameNode : ∀ x ∈ deliveries, ∀ newest ∈ gateway.emitted nai mag,
      x.pbu.mnNai = newest.mnNai := fun x member newest isSent =>
    (emitted_nai (sent x member)).trans (emitted_nai isSent).symm
  constructor
  · intro follows newest isSent greatest
    apply List.pairwise_iff_getElem.mpr
    intro i j iBound jBound before isNewest
    have split : deliveries = deliveries.take j ++ deliveries[j] :: deliveries.drop (j + 1) := by
      rw [← List.drop_eq_getElem_cons jBound, List.take_append_drop]
    have member : deliveries[j] ∈ deliveries := List.getElem_mem jBound
    have whole : deliveries = (deliveries.take j ++ [deliveries[j]]) ++ deliveries.drop (j + 1) := by
      rw [List.append_assoc]
      exact split
    rw [whole] at finished
    obtain ⟨d, reached, _⟩ := run_append_ok finished
    have arrived : newest ∈ (deliveries.take j ++ [deliveries[j]]).map Delivery.pbu := by
      apply List.mem_map.mpr
      refine ⟨deliveries[i], List.mem_append_left _ ?_, isNewest⟩
      rw [List.mem_take_iff_getElem]
      exact ⟨i, by omega, rfl⟩
    have agrees := (follows newest ⟨isSent, greatest⟩).1 _ _ d whole arrived reached
    exact (agrees_iff_same (sameNode _ member newest isSent)
      (run_agrees ok (memory _ member) reached)).mp agrees
  · intro nothingElse newest isNewest
    have later := nothingElse newest isNewest.1 isNewest.2
    have agreesAt : ∀ earlier rest d, deliveries = earlier ++ rest →
        newest ∈ earlier.map Delivery.pbu → run (deliver conf mag) start earlier = .ok d →
          Agrees d mag newest := by
      intro earlier rest d split arrived reached
      rcases List.eq_nil_or_concat earlier with rfl | ⟨before, x, rfl⟩
      · cases arrived
      · rw [List.concat_eq_append] at split arrived reached
        have member : x ∈ deliveries := by simp [split]
        have agrees := run_agrees ok (memory x member) reached
        apply (agrees_iff_same (sameNode x member newest isNewest.1) agrees).mpr
        obtain ⟨y, inEarlier, isNewest'⟩ := List.mem_map.mp arrived
        rcases List.mem_append.mp inEarlier with inBefore | isLast
        · rw [split, List.append_assoc] at later
          exact (List.pairwise_append.mp later).2.2 y inBefore x (by simp) isNewest'
        · rw [← isNewest', List.mem_singleton.mp isLast]
          exact sameBinding_refl x.pbu
    refine ⟨agreesAt, fun earlier x rest d d' split arrived older reached taken => ?_⟩
    have member : x ∈ deliveries := by simp [split]
    have agrees := agreesAt earlier (x :: rest) d split arrived reached
    obtain ⟨y, inEarlier, isNewest'⟩ := List.mem_map.mp arrived
    rw [split] at later
    rcases (List.pairwise_append.mp later).2.2 y inEarlier x (by simp) isNewest' with
      ⟨zero, zero'⟩ | ⟨_, _, sameSeqno, sameTime, _⟩
    · have unbound : d.cached x.pbu.mnNai mag = none := by
        rw [sameNode x member newest isNewest.1]
        by_contra bound
        exact agrees.1.mp (Option.ne_none_iff_exists'.mp bound) zero'
      exact deliver_idle (deliver_run_ok ok reached) unbound zero taken
    · rw [Pbu.stamp, Pbu.stamp, sameSeqno, sameTime] at older
      exact absurd older (Nat.lt_irrefl _)

/-! ## A node that comes and goes -/

def visit : List MagInput :=
  [.event (icmpRsParse (linkLocalAddr in6addrLoopback) in6addrAny 0) (Env.ample ⟨100, 0⟩ 10),
    .event { MsgInfo.zero with
      msgEvent := .hasPBA
      dst := in6addrLoopback
      mnIid := in6addrLoopback
      lifetime := ⟨8, 0⟩
      timestamp := ⟨0, 6553600⟩ } (Env.ample ⟨101, 0⟩ 10),
    .event { MsgInfo.zero with msgEvent := .hasDEREG, mnIid := in6addrLoopback }
      (Env.ample ⟨110, 0⟩ 10)]

def registration : Pbu where
  seqno := 0
  flags := 0x0082
  lifetime := 2
  mnNai := Octets.zero 63
  mnPrefix := in6addrAny
  mnId := mnidOf in6addrLoopback
  timestamp := some ⟨0, 6553600⟩

def deregistration : Pbu :=
  { registration with seqno := 1, lifetime := 0, timestamp := some ⟨0, 7208960⟩ }

def visited : Daemon := init Tunnels.init [⟨in6addrAny, eui64ToEui48 in6addrLoopback, Octets.zero 63⟩]

theorem binding_follows_newest_in_order :
    ∃ gateway final, run (magStep (confDefault .mag)) visited visit = .ok gateway ∧
      run (deliver (confDefault .ha) in6addrLoopback) (init Tunnels.init [])
        [⟨registration, 1, Env.ample ⟨102, 0⟩ 10⟩, ⟨deregistration, 1, Env.ample ⟨112, 0⟩ 10⟩] =
          .ok final ∧
      FollowsNewest (confDefault .ha) in6addrLoopback (init Tunnels.init [])
        (gateway.emitted (Octets.zero 63) in6addrLoopback)
        [⟨registration, 1, Env.ample ⟨102, 0⟩ 10⟩, ⟨deregistration, 1, Env.ample ⟨112, 0⟩ 10⟩] := by
  refine ⟨_, _, rfl, rfl, ?_⟩
  apply (binding_follows_newest_iff (confDefault .ha) rfl (fun _ => false) Tunnels.init
    (fun _ => List.not_mem_nil) [] [] (init Tunnels.init []) rfl _ (Octets.zero 63) in6addrLoopback
    [⟨registration, 1, Env.ample ⟨102, 0⟩ 10⟩, ⟨deregistration, 1, Env.ample ⟨112, 0⟩ 10⟩]
    (by decide) (by decide) _ rfl).mpr
  decide

/-- The two updates of the visit arrive in reverse: the node is bound again by
the older one. -/
theorem binding_follows_older :
    ¬ ∀ gateway, run (magStep (confDefault .mag)) visited visit = .ok gateway →
      ∀ (deliveries : List Delivery) (final : Daemon),
        (∀ x ∈ deliveries, x.pbu ∈ gateway.emitted (Octets.zero 63) in6addrLoopback) →
        run (deliver (confDefault .ha) in6addrLoopback) (init Tunnels.init []) deliveries =
          .ok final →
        FollowsNewest (confDefault .ha) in6addrLoopback (init Tunnels.init [])
          (gateway.emitted (Octets.zero 63) in6addrLoopback) deliveries := by
  intro claimed
  have follows := claimed _ rfl
    [⟨deregistration, 1, Env.ample ⟨112, 0⟩ 10⟩, ⟨registration, 1, Env.ample ⟨113, 0⟩ 10⟩] _
    (by decide) rfl deregistration ⟨by decide, by decide⟩
  have agrees := follows.1
    [⟨deregistration, 1, Env.ample ⟨112, 0⟩ 10⟩, ⟨registration, 1, Env.ample ⟨113, 0⟩ 10⟩] [] _
    rfl (by decide) rfl
  exact agrees.1.mp ⟨0, by decide⟩ rfl

end Daemon

end OaiPmip
