import OaiPmip.FlowMob

/-!
# The chain of rules and the cache of flows

Every cached flow should have one rule, with its mark, and every rule should be
that of a cached flow.  A rule only says addresses, protocol and ports, so flows
that agree in these share it; `flowScheduler_change_mark` adds the rule of the
new mark before it deletes that of the old one, without asking whether the marks
differ.  `KeepsRules` is what it takes for one call to keep the two alike.
-/

set_option autoImplicit false

namespace OaiPmip

open OaiPmip.ChainTable OaiPmip.HashChains OaiPmip.Runs
open OaiPmip.HashKeys (FlowKey)

def marksOf (rules : List Rule) (flow : FiveTuple) : List UInt32 :=
  (rules.filter fun rule => rule.flow = flow).map Rule.mark

section Marks
variable (rules : List Rule) (flow : FiveTuple) (mark : UInt32)

theorem mem_marksOf : mark ∈ marksOf rules flow ↔ ⟨flow, mark⟩ ∈ rules := by
  simp only [marksOf, List.mem_map, List.mem_filter, decide_eq_true_eq]
  constructor
  · intro given
    obtain ⟨rule, ⟨member, rfl⟩, rfl⟩ := given
    exact member
  · intro member
    exact ⟨_, ⟨member, rfl⟩, rfl⟩

theorem marksOf_add : marksOf (flowMarkerAddFwmark rules flow mark) flow =
    (marksOf rules flow).insert mark := by
  simp only [flowMarkerAddFwmark]
  by_cases present : (⟨flow, mark⟩ : Rule) ∈ rules
  · rw [if_pos present, List.insert_of_mem ((mem_marksOf rules flow mark).mpr present)]
  · have absent : mark ∉ marksOf rules flow := fun member =>
      present ((mem_marksOf rules flow mark).mp member)
    rw [if_neg present, List.insert_of_not_mem absent]
    simp [marksOf]

theorem marksOf_delete : marksOf (flowMarkerDeleteMark rules flow mark) flow =
    (marksOf rules flow).erase mark := by
  simp only [flowMarkerDeleteMark]
  induction rules with
  | nil => rfl
  | cons rule rest ih =>
      rw [List.erase_cons]
      by_cases same : rule = ⟨flow, mark⟩
      · subst same
        simp [marksOf]
      · have differs : (rule == ⟨flow, mark⟩) = false := by simpa using same
        rw [differs, if_neg (by simp)]
        by_cases sameFlow : rule.flow = flow
        · have other : rule.mark ≠ mark := by
            intro isMark
            apply same
            cases rule
            simp only at sameFlow isMark
            rw [sameFlow, isMark]
          simp only [marksOf, List.filter_cons, sameFlow, decide_true, if_true,
            List.map_cons] at ih ⊢
          rw [ih, List.erase_cons_tail (by simpa using other)]
        · simp only [marksOf, List.filter_cons, sameFlow, decide_false] at ih ⊢
          exact ih

variable {flow}

theorem marksOf_add_other {other : FiveTuple} (differs : other ≠ flow) :
    marksOf (flowMarkerAddFwmark rules flow mark) other = marksOf rules other := by
  simp only [flowMarkerAddFwmark]
  split
  · rfl
  · simp [marksOf, differs.symm]

theorem marksOf_delete_other {other : FiveTuple} (differs : other ≠ flow) :
    marksOf (flowMarkerDeleteMark rules flow mark) other = marksOf rules other := by
  simp only [flowMarkerDeleteMark]
  induction rules with
  | nil => rfl
  | cons rule rest ih =>
      rw [List.erase_cons]
      split
      · rename_i same
        obtain rfl := eq_of_beq same
        simp [marksOf, differs.symm]
      · simp only [marksOf, List.filter_cons] at ih ⊢
        split
        · rw [List.map_cons, List.map_cons, ih]
        · exact ih

end Marks

namespace FlowMob

def tuple (s : FlowMob) (fce : Nat) : FiveTuple := (s.heap fce).key.toFiveTuple

structure RulesMirror (s : FlowMob) : Prop where
  marked : ∀ fce ∈ s.flows, marksOf s.rules (s.tuple fce) = [(s.heap fce).mark]
  needed : ∀ rule ∈ s.rules, ∃ fce ∈ s.flows, s.tuple fce = rule.flow

theorem rulesMirror_init : RulesMirror init where
  marked := by simp [flows, init]
  needed := by simp [init]

theorem RulesMirror.mark_eq {s : FlowMob} (mirror : RulesMirror s) {p q : Nat} (pFlow : p ∈ s.flows)
    (qFlow : q ∈ s.flows) (same : s.tuple p = s.tuple q) : (s.heap p).mark = (s.heap q).mark := by
  have pMarks := mirror.marked p pFlow
  rw [same, mirror.marked q qFlow] at pMarks
  exact (List.singleton_injective pMarks).symm

theorem RulesMirror.unmarked {s : FlowMob} (mirror : RulesMirror s) {flow : FiveTuple}
    (foreign : ∀ fce ∈ s.flows, s.tuple fce ≠ flow) : marksOf s.rules flow = [] := by
  apply List.eq_nil_iff_forall_not_mem.mpr
  intro mark member
  obtain ⟨fce, isFlow, same⟩ := mirror.needed _ ((mem_marksOf s.rules flow mark).mp member)
  exact foreign fce isFlow same

theorem rulesMirror_of_marks {s : FlowMob}
    (marked : ∀ fce ∈ s.flows, marksOf s.rules (s.tuple fce) = [(s.heap fce).mark])
    (unmarked : ∀ flow, (∀ fce ∈ s.flows, s.tuple fce ≠ flow) → marksOf s.rules flow = []) :
    RulesMirror s where
  marked := marked
  needed := by
    intro rule member
    by_contra foreign
    have noMarks := unmarked rule.flow fun fce isFlow same => foreign ⟨fce, isFlow, same⟩
    have isMark := (mem_marksOf s.rules rule.flow rule.mark).mpr member
    simp [noMarks] at isMark

/-! ## The cache by itself -/

structure FlowsOk (s : FlowMob) : Prop where
  placed : Placed flowCalcHash s.key s.hash
  keys : (s.flows.map s.key).Nodup
  below : ∀ fce ∈ s.flows, fce < s.top

theorem flowsOk_init : FlowsOk init where
  placed := placed_empty
  keys := by simp [flows, init]
  below := by simp [flows, init]

theorem FlowsOk.nodup {s : FlowMob} (ok : FlowsOk s) : s.flows.Nodup := ok.keys.of_map _

theorem FlowsOk.key_inj {s : FlowMob} (ok : FlowsOk s) {p q : Nat} (pFlow : p ∈ s.flows)
    (qFlow : q ∈ s.flows) (same : s.key p = s.key q) : p = q :=
  List.inj_on_of_nodup_map ok.keys pFlow qFlow same

theorem FlowsOk.get_key {s : FlowMob} (ok : FlowsOk s) {fce : Nat} (isFlow : fce ∈ s.flows) :
    s.flowmobCacheGet (s.key fce) = some fce := by
  cases found : s.flowmobCacheGet (s.key fce) with
  | none => exact absurd rfl (get_none ok.placed found fce isFlow)
  | some p =>
      obtain ⟨pFlow, same⟩ := get_some found
      rw [ok.key_inj pFlow isFlow same]

theorem FlowsOk.deleted {s : FlowMob} (ok : FlowsOk s) {fce : Nat} (isFlow : fce ∈ s.flows) :
    FlowsOk (s.flowmobEntryDelete fce) ∧
      ∀ p, p ∈ (s.flowmobEntryDelete fce).flows ↔ p ∈ s.flows ∧ p ≠ fce := by
  have taken : s.flows.Perm (fce :: (s.flowmobEntryDelete fce).flows) :=
    toList_erase_perm (ok.get_key isFlow)
  have apart := List.nodup_cons.mp (taken.nodup_iff.mp ok.nodup)
  have keys := (taken.map s.key).nodup_iff.mp ok.keys
  refine ⟨⟨placed_erase ok.placed _, (List.nodup_cons.mp keys).2, ?_⟩, ?_⟩
  · intro p member
    exact ok.below p (taken.mem_iff.mpr (List.mem_cons_of_mem _ member))
  · intro p
    rw [taken.mem_iff, List.mem_cons]
    constructor
    · intro member
      refine ⟨Or.inr member, ?_⟩
      intro same
      subst same
      exact apart.1 member
    · intro given
      rcases given with ⟨rfl | member, other⟩
      · exact absurd rfl other
      · exact member

theorem FlowsOk.added {s : FlowMob} (ok : FlowsOk s) {entry : FlowEntry}
    (missing : s.flowmobCacheGet entry.key = none) (node : Bool) :
    FlowsOk (s.flowmobCacheAdd entry node) ∧
      ∀ p, p ∈ (s.flowmobCacheAdd entry node).flows ↔ p ∈ s.flows ∨ (p = s.top ∧ node = true) := by
  set s' := s.flowmobCacheAdd entry node with isNext
  have old : ∀ p ∈ s.flows, s'.key p = s.key p := by
    intro p isFlow
    have other : p ≠ s.top := (ok.below p isFlow).ne
    simp [isNext, flowmobCacheAdd, key, other]
  have new : s'.key s.top = entry.key := by simp [isNext, flowmobCacheAdd, key]
  have placed : Placed flowCalcHash s'.key s.hash := by
    intro b p member
    rw [old p ((mem_toList s.hash p).mpr ⟨b, member⟩)]
    exact ok.placed b p member
  have oldKeys : s.flows.map s'.key = s.flows.map s.key := List.map_congr_left old
  have fresh : s'.key s.top ∉ (toList s.hash).map s'.key := by
    rw [new]
    change entry.key ∉ s.flows.map s'.key
    rw [oldKeys]
    intro member
    obtain ⟨p, isFlow, same⟩ := List.mem_map.mp member
    exact get_none ok.placed missing p isFlow same
  cases node with
  | false =>
      have sameHash : s'.hash = s.hash := rfl
      have sameFlows : s'.flows = s.flows := rfl
      refine ⟨⟨by rw [sameHash]; exact placed, by rw [sameFlows, oldKeys]; exact ok.keys, ?_⟩, ?_⟩
      · intro p member
        exact (ok.below p member).trans (Nat.lt_succ_self _)
      · intro p
        simp [sameFlows]
  | true =>
      have linked : s'.hash = append s.hash (flowCalcHash (s'.key s.top)) s.top :=
        congrArg Prod.fst (tableAdd_new fresh)
      have joined : s'.flows.Perm (s.top :: s.flows) := by
        rw [flows, linked]
        exact toList_append_perm _ _ _
      refine ⟨⟨by rw [linked]; exact placed_append placed _, ?_, ?_⟩, ?_⟩
      · refine (joined.map s'.key).nodup_iff.mpr (List.nodup_cons.mpr ⟨fresh, ?_⟩)
        rw [oldKeys]
        exact ok.keys
      · intro p member
        rcases List.mem_cons.mp (joined.mem_iff.mp member) with rfl | isFlow
        · exact Nat.lt_succ_self _
        · exact (ok.below p isFlow).trans (Nat.lt_succ_self _)
      · intro p
        rw [joined.mem_iff, List.mem_cons, or_comm]
        simp

/-! ## Packets -/

def admitted (s : FlowMob) (entry : FlowEntry) (node : Bool) : FlowMob :=
  { s.flowmobCacheAdd entry node with
    rules :=
      if isPositive entry.mark then flowMarkerAddFwmark s.rules entry.key.toFiveTuple entry.mark
      else s.rules }

/-- Either nothing happens, or the flows of the same rule have the mark of the
new one, and without such flows the new one is cached and its rule is added. -/
def Fits (s : FlowMob) (entry : FlowEntry) (node : Bool) : Prop :=
  (node = false ∧ isPositive entry.mark = false) ∨
    ((∀ fce ∈ s.flows, s.tuple fce = entry.key.toFiveTuple → (s.heap fce).mark = entry.mark) ∧
      ((∃ fce ∈ s.flows, s.tuple fce = entry.key.toFiveTuple) ∨
        (node = true ∧ isPositive entry.mark = true)))

section Admitted
variable {s : FlowMob} {entry : FlowEntry} {node : Bool}

theorem admitted_heap (ok : FlowsOk s) {fce : Nat} (isFlow : fce ∈ s.flows) :
    (s.admitted entry node).heap fce = s.heap fce := by
  have other : fce ≠ s.top := (ok.below fce isFlow).ne
  simp [admitted, flowmobCacheAdd, other]

theorem admitted_new : (s.admitted entry node).heap s.top = entry := by
  simp [admitted, flowmobCacheAdd]

theorem mem_admitted (ok : FlowsOk s) (missing : s.flowmobCacheGet entry.key = none) (p : Nat) :
    p ∈ (s.admitted entry node).flows ↔ p ∈ s.flows ∨ (p = s.top ∧ node = true) :=
  (ok.added missing node).2 p

theorem FlowsOk.admitted (ok : FlowsOk s) (missing : s.flowmobCacheGet entry.key = none) :
    FlowsOk (s.admitted entry node) where
  placed := (ok.added missing node).1.placed
  keys := (ok.added missing node).1.keys
  below := (ok.added missing node).1.below

theorem marksOf_admitted_other {flow : FiveTuple} (differs : flow ≠ entry.key.toFiveTuple) :
    marksOf (s.admitted entry node).rules flow = marksOf s.rules flow := by
  unfold FlowMob.admitted
  dsimp only
  split
  · exact marksOf_add_other s.rules entry.mark differs
  · rfl

theorem marksOf_admitted : marksOf (s.admitted entry node).rules entry.key.toFiveTuple =
    if isPositive entry.mark then (marksOf s.rules entry.key.toFiveTuple).insert entry.mark
    else marksOf s.rules entry.key.toFiveTuple := by
  unfold FlowMob.admitted
  dsimp only
  split
  · exact marksOf_add s.rules entry.key.toFiveTuple entry.mark
  · rfl

theorem Fits.marks (mirror : RulesMirror s) (fits : Fits s entry node)
    (changed : ¬ (node = false ∧ isPositive entry.mark = false)) :
    marksOf (s.admitted entry node).rules entry.key.toFiveTuple = [entry.mark] := by
  obtain ⟨alike, known⟩ := fits.resolve_left changed
  rw [marksOf_admitted]
  by_cases shared : ∃ fce ∈ s.flows, s.tuple fce = entry.key.toFiveTuple
  · obtain ⟨fce, isFlow, same⟩ := shared
    have marks := mirror.marked fce isFlow
    rw [same, alike fce isFlow same] at marks
    rw [marks]
    simp
  · obtain ⟨_, positive⟩ := known.resolve_left shared
    have unmarked := mirror.unmarked fun fce isFlow same => shared ⟨fce, isFlow, same⟩
    rw [unmarked, if_pos positive]
    rfl

theorem Fits.keeps (ok : FlowsOk s) (mirror : RulesMirror s)
    (missing : s.flowmobCacheGet entry.key = none) (fits : Fits s entry node) :
    RulesMirror (s.admitted entry node) := by
  have members : ∀ p, p ∈ (s.admitted entry node).flows ↔ p ∈ s.flows ∨ (p = s.top ∧ node = true) :=
    mem_admitted ok missing
  by_cases changed : node = false ∧ isPositive entry.mark = false
  · have sameRules : (s.admitted entry node).rules = s.rules := by simp [FlowMob.admitted, changed.2]
    have sameFlows : ∀ p, p ∈ (s.admitted entry node).flows ↔ p ∈ s.flows := by
      intro p
      rw [members, changed.1]
      simp
    constructor
    · intro fce member
      have isFlow := (sameFlows fce).mp member
      rw [sameRules, tuple, admitted_heap ok isFlow]
      exact mirror.marked fce isFlow
    · intro rule member
      rw [sameRules] at member
      obtain ⟨fce, isFlow, same⟩ := mirror.needed rule member
      refine ⟨fce, (sameFlows fce).mpr isFlow, ?_⟩
      rw [tuple, admitted_heap ok isFlow]
      exact same
  · have marks := fits.marks mirror changed
    obtain ⟨alike, known⟩ := fits.resolve_left changed
    apply rulesMirror_of_marks
    · intro fce member
      rcases (members fce).mp member with isFlow | ⟨rfl, _⟩
      · rw [tuple, admitted_heap ok isFlow]
        by_cases same : (s.heap fce).key.toFiveTuple = entry.key.toFiveTuple
        · rw [same, marks, alike fce isFlow same]
        · rw [marksOf_admitted_other same]
          exact mirror.marked fce isFlow
      · rw [tuple, admitted_new, marks]
    · intro flow foreign
      have notFlow : ∀ fce ∈ s.flows, s.tuple fce ≠ flow := by
        intro fce isFlow
        have differs := foreign fce ((members fce).mpr (Or.inl isFlow))
        rw [tuple, admitted_heap ok isFlow] at differs
        exact differs
      have differs : flow ≠ entry.key.toFiveTuple := by
        intro same
        subst same
        rcases known with ⟨fce, isFlow, same⟩ | ⟨isCached, _⟩
        · exact notFlow fce isFlow same
        · refine foreign s.top ((members s.top).mpr (Or.inr ⟨rfl, isCached⟩)) ?_
          rw [tuple, admitted_new]
      rw [marksOf_admitted_other differs]
      exact mirror.unmarked notFlow

theorem fits_of_mirror (ok : FlowsOk s) (mirror : RulesMirror s)
    (missing : s.flowmobCacheGet entry.key = none)
    (after : RulesMirror (s.admitted entry node)) : Fits s entry node := by
  have members : ∀ p, p ∈ (s.admitted entry node).flows ↔ p ∈ s.flows ∨ (p = s.top ∧ node = true) :=
    mem_admitted ok missing
  by_cases changed : node = false ∧ isPositive entry.mark = false
  · exact Or.inl changed
  · -- the mark is one of the rule's afterwards, through the entry or through the rule
    have isMark : entry.mark ∈ marksOf (s.admitted entry node).rules entry.key.toFiveTuple := by
      by_cases isCached : node = true
      · have marks := after.marked s.top ((members s.top).mpr (Or.inr ⟨rfl, isCached⟩))
        rw [tuple, admitted_new] at marks
        rw [marks]
        exact List.mem_singleton_self _
      · have positive : isPositive entry.mark = true := by
          by_contra notPositive
          exact changed ⟨by simpa using isCached, by simpa using notPositive⟩
        rw [marksOf_admitted, if_pos positive]
        exact List.mem_insert_self
    refine Or.inr ⟨?_, ?_⟩
    · intro fce isFlow same
      have marks := after.marked fce ((members fce).mpr (Or.inl isFlow))
      rw [tuple, admitted_heap ok isFlow] at marks
      change s.tuple fce = _ at same
      simp only [tuple] at same
      rw [same] at marks
      rw [marks] at isMark
      exact (List.mem_singleton.mp isMark).symm
    · by_cases shared : ∃ fce ∈ s.flows, s.tuple fce = entry.key.toFiveTuple
      · exact Or.inl shared
      · have unmarked := mirror.unmarked fun fce isFlow same => shared ⟨fce, isFlow, same⟩
        have positive : isPositive entry.mark = true := by
          by_contra notPositive
          rw [marksOf_admitted, if_neg notPositive, unmarked] at isMark
          simp at isMark
        refine Or.inr ⟨?_, positive⟩
        obtain ⟨fce, member, same⟩ := after.needed _ ((mem_marksOf _ _ _).mp isMark)
        rcases (members fce).mp member with isFlow | ⟨_, isCached⟩
        · rw [tuple, admitted_heap ok isFlow] at same
          exact absurd ⟨fce, isFlow, same⟩ shared
        · exact isCached

end Admitted

section Packet
variable {marks : List (In6Addr × UInt32)} {d : Daemon} {s : FlowMob} {k : FlowKey} {rand : Nat}
  {alloc node : Bool}

def Opens (marks : List (In6Addr × UInt32)) (d : Daemon) (s : FlowMob) (k : FlowKey) (rand : Nat) :
    Prop :=
  s.flowmobCacheGet k = none ∧ newMark marks d k rand ≠ 0

theorem newFlow_key (d : Daemon) (k : FlowKey) (mark : UInt32) : (newFlow d k mark).key = k := by
  simp only [newFlow]
  split <;> rfl

theorem newFlow_mark (d : Daemon) (k : FlowKey) (mark : UInt32) :
    (newFlow d k mark).mark = mark := by
  simp only [newFlow]
  split <;> rfl

/-- A packet opens no flow and gets no mark, or its flow is added with the mark of
the client that was found, the client with the identifier zero when none was. -/
theorem scheduleFlow_cases :
    (¬ Opens marks d s k rand ∧
        s.flowSchedulerScheduleFlow marks d k rand alloc node = .ok (s, 0)) ∨
      (Opens marks d s k rand ∧ s.flowSchedulerScheduleFlow marks d k rand alloc node =
        if alloc then
          .ok (s.flowmobCacheAdd (newFlow d k (newMark marks d k rand)) node,
            newMark marks d k rand)
        else .error .nullEntry) := by
  simp only [flowSchedulerScheduleFlow]
  cases found : s.flowmobCacheGet k with
  | some fce =>
      refine Or.inl ⟨fun opens => ?_, rfl⟩
      rw [opens.1] at found
      cases found
  | none =>
      by_cases pathless : newMark marks d k rand = 0
      · refine Or.inl ⟨fun opens => opens.2 pathless, ?_⟩
        simp [pathless]
      · have above : newMark marks d k rand > 0 := UInt32.pos_iff_ne_zero.mpr pathless
        exact Or.inr ⟨⟨found, pathless⟩, if_pos above⟩

theorem schedulePacket_cases :
    (¬ Opens marks d s k rand ∧ s.schedulePacket marks d k rand alloc node = .ok s) ∨
      (Opens marks d s k rand ∧ s.schedulePacket marks d k rand alloc node =
        if alloc then .ok (s.admitted (newFlow d k (newMark marks d k rand)) node)
        else .error .nullEntry) := by
  rcases @scheduleFlow_cases marks d s k rand alloc node with ⟨closed, same⟩ | ⟨opens, next⟩
  · refine Or.inl ⟨closed, ?_⟩
    rw [schedulePacket, same]
    rfl
  · refine Or.inr ⟨opens, ?_⟩
    rw [schedulePacket, next]
    cases alloc with
    | false => rfl
    | true =>
        simp only [if_true, FlowMob.admitted, newFlow_key, newFlow_mark]
        by_cases positive : isPositive (newMark marks d k rand) = true
        · rw [if_pos positive, if_pos positive]
          rfl
        · rw [if_neg positive, if_neg positive]
          rfl

theorem packet_keeps_iff (ok : FlowsOk s) (mirror : RulesMirror s) :
    (Opens marks d s k rand → alloc = true → Fits s (newFlow d k (newMark marks d k rand)) node) ↔
      ∀ s', s.schedulePacket marks d k rand alloc node = .ok s' → RulesMirror s' := by
  rcases schedulePacket_cases with ⟨closed, same⟩ | ⟨opens, next⟩
  · rw [same]
    refine ⟨fun _ s' taken => ?_, fun _ opens => absurd opens closed⟩
    cases taken
    exact mirror
  · have missing : s.flowmobCacheGet (newFlow d k (newMark marks d k rand)).key = none := by
      rw [newFlow_key]
      exact opens.1
    rw [next]
    cases alloc with
    | false => simp
    | true =>
        simp only [if_true, Except.ok.injEq, forall_eq', opens, forall_const]
        exact ⟨fun fits => fits.keeps ok mirror missing, fits_of_mirror ok mirror missing⟩

theorem FlowsOk.scheduled {s' : FlowMob} (ok : FlowsOk s)
    (taken : s.schedulePacket marks d k rand alloc node = .ok s') : FlowsOk s' := by
  rcases schedulePacket_cases with ⟨_, same⟩ | ⟨opens, next⟩
  · rw [same] at taken
    cases taken
    exact ok
  · rw [next] at taken
    cases alloc with
    | false => cases taken
    | true =>
        cases taken
        apply ok.admitted
        rw [newFlow_key]
        exact opens.1

end Packet

end FlowMob

end OaiPmip
