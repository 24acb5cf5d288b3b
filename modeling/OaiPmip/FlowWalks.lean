import OaiPmip.FlowRules

/-!
# Links that come and go, and the rules of the flows

A link that comes up or goes down walks along all cached flows.  The rules mirror
the cache afterwards when the flows of one rule are all handled and all get the
same path, and, for a link that goes down, a path other than before.
-/

set_option autoImplicit false

namespace OaiPmip

open OaiPmip.ChainTable OaiPmip.Runs

namespace FlowMob

/-- Both walks give a flow the mark of its new path or drop it, and differ in what
they do with its rule. -/
def handle (path : Nat → UInt32) (drops : Nat → Bool)
    (rerule : List Rule → FlowEntry → UInt32 → List Rule) (s : FlowMob) (fce : Nat) : FlowMob :=
  let f := s.heap fce
  if drops fce then
    FlowMob.flowmobEntryDelete
      { s with rules := flowMarkerDeleteMark s.rules f.key.toFiveTuple f.mark } fce
  else
    { s with
      heap := Function.update s.heap fce { f with mark := path fce }
      rules := rerule s.rules f (path fce) }

section Handle
variable {path : Nat → UInt32} {drops : Nat → Bool}
  {rerule : List Rule → FlowEntry → UInt32 → List Rule}

/-- The cache after the flows of `done` were handled. -/
structure Handled (path : Nat → UInt32) (drops : Nat → Bool) (start : FlowMob) (done : List Nat)
    (s : FlowMob) : Prop where
  ok : FlowsOk s
  heap : ∀ p, s.heap p =
    if p ∈ done ∧ drops p = false then { start.heap p with mark := path p } else start.heap p
  flows : ∀ p, p ∈ s.flows ↔ p ∈ start.flows ∧ ¬ (p ∈ done ∧ drops p = true)

theorem handled_nil {s : FlowMob} (ok : FlowsOk s) : Handled path drops s [] s where
  ok := ok
  heap := by simp
  flows := by simp

variable {start s : FlowMob} {done : List Nat}

theorem Handled.key (handled : Handled path drops start done s) : s.key = start.key := by
  funext p
  simp only [FlowMob.key]
  rw [handled.heap]
  split <;> rfl

theorem Handled.tuple (handled : Handled path drops start done s) (p : Nat) :
    s.tuple p = start.tuple p := congrArg HashKeys.FlowKey.toFiveTuple (congrFun handled.key p)

theorem Handled.untouched (handled : Handled path drops start done s) {p : Nat}
    (pending : p ∉ done) : s.heap p = start.heap p := by
  rw [handled.heap, if_neg fun both => pending both.1]

variable (rerule) in
theorem Handled.snoc (handled : Handled path drops start done s) {fce : Nat}
    (isFlow : fce ∈ start.flows) (pending : fce ∉ done) :
    Handled path drops start (done ++ [fce]) (handle path drops rerule s fce) := by
  have same := handled.untouched pending
  have present : fce ∈ s.flows := (handled.flows fce).mpr ⟨isFlow, fun both => pending both.1⟩
  simp only [handle]
  cases dropped : drops fce with
  | true =>
      have ok : FlowsOk { s with
          rules := flowMarkerDeleteMark s.rules (s.heap fce).key.toFiveTuple (s.heap fce).mark } :=
        ⟨handled.ok.placed, handled.ok.keys, handled.ok.below⟩
      obtain ⟨next, members⟩ := ok.deleted present
      refine ⟨next, fun p => ?_, fun p => ?_⟩
      · change s.heap p = _
        rw [handled.heap]
        by_cases here : p = fce
        · simp [here, pending, dropped]
        · simp [here]
      · rw [if_pos rfl]
        refine (members p).trans ?_
        change p ∈ s.flows ∧ p ≠ fce ↔ _
        rw [handled.flows]
        by_cases here : p = fce
        · simp [here, dropped]
        · simp [here]
  | false =>
      rw [if_neg (by simp)]
      have sameKey : FlowMob.key { s with
          heap := Function.update s.heap fce { s.heap fce with mark := path fce }
          rules := rerule s.rules (s.heap fce) (path fce) } = s.key := by
        funext p
        by_cases here : p = fce
        · simp [FlowMob.key, here]
        · simp [FlowMob.key, here]
      refine ⟨⟨?_, ?_, handled.ok.below⟩, fun p => ?_, fun p => ?_⟩
      · rw [sameKey]
        exact handled.ok.placed
      · rw [sameKey]
        exact handled.ok.keys
      · by_cases here : p = fce
        · simp [here, dropped, same]
        · simp [here, handled.heap]
      · change p ∈ s.flows ↔ _
        rw [handled.flows]
        by_cases here : p = fce
        · simp [here, dropped]
        · simp [here]

variable (rerule) in
theorem Handled.induction (Inv : List Nat → FlowMob → Prop)
    (handled : Handled path drops start done s) (inv : Inv done s) {walk : List Nat}
    (areFlows : ∀ p ∈ walk, p ∈ start.flows) (distinct : (done ++ walk).Nodup)
    (step : ∀ {before : List Nat} {t : FlowMob} {fce : Nat}, before ++ [fce] <+: done ++ walk →
      fce ∈ walk → fce ∉ before → Handled path drops start before t → Inv before t →
      Inv (before ++ [fce]) (handle path drops rerule t fce)) :
    Handled path drops start (done ++ walk) (walk.foldl (handle path drops rerule) s) ∧
      Inv (done ++ walk) (walk.foldl (handle path drops rerule) s) := by
  induction walk generalizing done s with
  | nil =>
      rw [List.append_nil]
      exact ⟨handled, inv⟩
  | cons fce rest ih =>
      have pending : fce ∉ done := fun member =>
        (List.nodup_append.mp distinct).2.2 fce member fce List.mem_cons_self rfl
      have regrouped : done ++ fce :: rest = (done ++ [fce]) ++ rest := by simp
      rw [regrouped] at distinct step ⊢
      have next := handled.snoc rerule (areFlows fce List.mem_cons_self) pending
      have kept := step (List.prefix_append _ _) List.mem_cons_self pending handled inv
      exact ih next kept (fun p member => areFlows p (List.mem_cons_of_mem _ member)) distinct
        fun ahead member => step ahead (List.mem_cons_of_mem _ member)

variable (rerule) in
theorem Handled.foldl (handled : Handled path drops start done s) {walk : List Nat}
    (areFlows : ∀ p ∈ walk, p ∈ start.flows) (distinct : (done ++ walk).Nodup) :
    Handled path drops start (done ++ walk) (walk.foldl (handle path drops rerule) s) :=
  (handled.induction rerule (fun _ _ => True) trivial areFlows distinct
    fun _ _ _ _ _ => trivial).1

end Handle

/-! ## Rules along a walk -/

def moveRule (rules : List Rule) (f : FlowEntry) (newMark : UInt32) : List Rule :=
  flowMarkerDeleteMark (flowMarkerAddFwmark rules f.key.toFiveTuple newMark)
    f.key.toFiveTuple f.mark

def settleRule (rules : List Rule) (f : FlowEntry) (newMark : UInt32) : List Rule :=
  if newMark ≠ f.mark then moveRule rules f newMark else rules

theorem marksOf_moveRule (rules : List Rule) (f : FlowEntry) (newMark : UInt32) :
    marksOf (moveRule rules f newMark) f.key.toFiveTuple =
      ((marksOf rules f.key.toFiveTuple).insert newMark).erase f.mark := by
  rw [moveRule, marksOf_delete, marksOf_add]

theorem marksOf_moveRule_other (rules : List Rule) (f : FlowEntry) (newMark : UInt32)
    {flow : FiveTuple} (differs : flow ≠ f.key.toFiveTuple) :
    marksOf (moveRule rules f newMark) flow = marksOf rules flow := by
  rw [moveRule, marksOf_delete_other _ _ differs, marksOf_add_other _ _ differs]

theorem marksOf_settleRule_other (rules : List Rule) (f : FlowEntry) (newMark : UInt32)
    {flow : FiveTuple} (differs : flow ≠ f.key.toFiveTuple) :
    marksOf (settleRule rules f newMark) flow = marksOf rules flow := by
  simp only [settleRule]
  split
  · exact marksOf_moveRule_other rules f newMark differs
  · rfl

/-- Among the flows of a walk, those of one rule that are kept get one path, and
they leave their mark when others of the rule are dropped. -/
structure Coherent (path : Nat → UInt32) (drops : Nat → Bool) (start : FlowMob)
    (walk : List Nat) : Prop where
  alike : ∀ p ∈ walk, ∀ q ∈ walk, start.tuple p = start.tuple q → drops p = false →
    drops q = false → path p = path q
  leaves : ∀ p ∈ walk, ∀ q ∈ walk, start.tuple p = start.tuple q → drops p = true →
    drops q = false → path q ≠ (start.heap q).mark

/-- The rules after the flows of `done` were handled. -/
structure Remarked (path : Nat → UInt32) (drops : Nat → Bool) (start : FlowMob) (done : List Nat)
    (rules : List Rule) : Prop where
  moved : ∀ p ∈ done, drops p = false → marksOf rules (start.tuple p) = [path p]
  emptied : ∀ flow, (∃ p ∈ done, start.tuple p = flow) →
    (∀ p ∈ done, start.tuple p = flow → drops p = true) → marksOf rules flow = []
  others : ∀ flow, (∀ p ∈ done, start.tuple p ≠ flow) → marksOf rules flow = marksOf start.rules flow

theorem remarked_nil {path : Nat → UInt32} {drops : Nat → Bool} (start : FlowMob) :
    Remarked path drops start [] start.rules where
  moved := by simp
  emptied := by simp
  others := fun _ _ => rfl

section Remark
variable {path : Nat → UInt32} {drops : Nat → Bool} {start : FlowMob} {done walk : List Nat}
  {rules : List Rule}

/-- The marks of the next flow's rule: its own mark, when no flow of the rule was
handled, else none or the path of one that was kept. -/
theorem Remarked.before (remarked : Remarked path drops start done rules)
    (mirror : RulesMirror start) {fce : Nat} (isFlow : fce ∈ start.flows) :
    ((∀ p ∈ done, start.tuple p ≠ start.tuple fce) ∧
        marksOf rules (start.tuple fce) = [(start.heap fce).mark]) ∨
      (∃ p ∈ done, start.tuple p = start.tuple fce ∧ drops p = true ∧
        (∀ q ∈ done, start.tuple q = start.tuple fce → drops q = true) ∧
        marksOf rules (start.tuple fce) = []) ∨
      ∃ p ∈ done, start.tuple p = start.tuple fce ∧ drops p = false ∧
        marksOf rules (start.tuple fce) = [path p] := by
  by_cases kept : ∃ p ∈ done, start.tuple p = start.tuple fce ∧ drops p = false
  · obtain ⟨p, member, same, keeps⟩ := kept
    have marks := remarked.moved p member keeps
    rw [same] at marks
    exact Or.inr (Or.inr ⟨p, member, same, keeps, marks⟩)
  · have dropped : ∀ q ∈ done, start.tuple q = start.tuple fce → drops q = true := by
      intro q member same
      by_contra keeps
      exact kept ⟨q, member, same, by simpa using keeps⟩
    by_cases shared : ∃ p ∈ done, start.tuple p = start.tuple fce
    · obtain ⟨p, member, same⟩ := shared
      exact Or.inr (Or.inl ⟨p, member, same, dropped p member same, dropped,
        remarked.emptied _ ⟨p, member, same⟩ dropped⟩)
    · have alone : ∀ p ∈ done, start.tuple p ≠ start.tuple fce := fun p member same =>
        shared ⟨p, member, same⟩
      exact Or.inl ⟨alone, by rw [remarked.others _ alone, mirror.marked fce isFlow]⟩

theorem Remarked.snoc_dropped (remarked : Remarked path drops start done rules)
    (mirror : RulesMirror start) (coherent : Coherent path drops start walk) {fce : Nat}
    (isFlow : fce ∈ start.flows) (areFlows : ∀ p ∈ walk, p ∈ start.flows)
    (within : ∀ p ∈ done ++ [fce], p ∈ walk) (dropped : drops fce = true) :
    Remarked path drops start (done ++ [fce])
      (flowMarkerDeleteMark rules (start.tuple fce) (start.heap fce).mark) := by
  have fceWalked : fce ∈ walk := within fce (by simp)
  have doneWalked : ∀ p ∈ done, p ∈ walk := fun p member =>
    within p (List.mem_append_left _ member)
  have isDone : ∀ p ∈ done ++ [fce], drops p = false → p ∈ done := by
    intro p member keeps
    rcases List.mem_append.mp member with earlier | now
    · exact earlier
    · rw [List.mem_singleton.mp now, dropped] at keeps
      cases keeps
  refine ⟨fun p member keeps => ?_, fun flow shared all => ?_, fun flow alone => ?_⟩
  · have marks := remarked.moved p (isDone p member keeps) keeps
    by_cases same : start.tuple fce = start.tuple p
    · have walked := doneWalked p (isDone p member keeps)
      have leaves := coherent.leaves fce fceWalked p walked same dropped keeps
      have sameMark := mirror.mark_eq isFlow (areFlows p walked) same
      rw [same, marksOf_delete, marks, sameMark, List.erase_of_not_mem]
      simpa using leaves.symm
    · rw [marksOf_delete_other _ _ (Ne.symm same), marks]
  · by_cases same : start.tuple fce = flow
    · subst same
      rw [marksOf_delete]
      rcases remarked.before mirror isFlow with ⟨_, marks⟩ | ⟨_, _, _, _, _, marks⟩ |
        ⟨p, member, same, keeps, _⟩
      · rw [marks]
        simp
      · rw [marks]
        rfl
      · rw [all p (List.mem_append_left _ member) same] at keeps
        cases keeps
    · obtain ⟨p, member, isFlow'⟩ := shared
      have earlier : p ∈ done := by
        rcases List.mem_append.mp member with earlier | now
        · exact earlier
        · rw [List.mem_singleton.mp now] at isFlow'
          exact absurd isFlow' same
      rw [marksOf_delete_other _ _ (Ne.symm same)]
      exact remarked.emptied flow ⟨p, earlier, isFlow'⟩ fun q qDone =>
        all q (List.mem_append_left _ qDone)
  · have same : start.tuple fce ≠ flow := alone fce (by simp)
    rw [marksOf_delete_other _ _ (Ne.symm same)]
    exact remarked.others flow fun p member => alone p (List.mem_append_left _ member)

/-- A kept flow leaves its rule with the path as the only mark. -/
theorem Remarked.snoc_kept (remarked : Remarked path drops start done rules)
    (mirror : RulesMirror start) (coherent : Coherent path drops start walk) {fce : Nat}
    (isFlow : fce ∈ start.flows) (within : ∀ p ∈ done ++ [fce], p ∈ walk)
    (kept : drops fce = false) :
    Remarked path drops start (done ++ [fce])
      (settleRule rules (start.heap fce) (path fce)) := by
  have fceWalked : fce ∈ walk := within fce (by simp)
  have doneWalked : ∀ p ∈ done, p ∈ walk := fun p member =>
    within p (List.mem_append_left _ member)
  have marked : marksOf (settleRule rules (start.heap fce) (path fce)) (start.tuple fce) =
      [path fce] := by
    have before := remarked.before mirror isFlow
    simp only [settleRule]
    simp only [tuple] at before ⊢
    by_cases stays : path fce = (start.heap fce).mark
    · rw [if_neg (by simp [stays])]
      rcases before with ⟨_, marks⟩ | ⟨p, member, same, dropped, _⟩ | ⟨p, member, same, keeps, marks⟩
      · rw [marks, stays]
      · exact absurd stays (coherent.leaves p (doneWalked p member) fce fceWalked same dropped kept)
      · rw [marks, coherent.alike p (doneWalked p member) fce fceWalked same keeps kept]
    · rw [if_pos stays, marksOf_moveRule]
      rcases before with ⟨_, marks⟩ | ⟨_, _, _, _, _, marks⟩ | ⟨p, member, same, keeps, marks⟩
      · rw [marks]
        simp [List.insert, stays]
      · rw [marks]
        simp [List.insert, stays]
      · rw [marks, coherent.alike p (doneWalked p member) fce fceWalked same keeps kept]
        simp [stays]
  refine ⟨fun p member keeps => ?_, fun flow shared all => ?_, fun flow alone => ?_⟩
  · by_cases same : start.tuple p = start.tuple fce
    · rw [same, marked, coherent.alike p (within p member) fce fceWalked same keeps kept]
    · have earlier : p ∈ done := by
        rcases List.mem_append.mp member with earlier | now
        · exact earlier
        · exact absurd (congrArg start.tuple (List.mem_singleton.mp now)) same
      rw [marksOf_settleRule_other _ _ _ same]
      exact remarked.moved p earlier keeps
  · have differs : start.tuple fce ≠ flow := by
      intro same
      have := all fce (by simp) same
      rw [kept] at this
      cases this
    obtain ⟨p, member, isFlow'⟩ := shared
    have earlier : p ∈ done := by
      rcases List.mem_append.mp member with earlier | now
      · exact earlier
      · rw [List.mem_singleton.mp now] at isFlow'
        exact absurd isFlow' differs
    rw [marksOf_settleRule_other _ _ _ differs.symm]
    exact remarked.emptied flow ⟨p, earlier, isFlow'⟩ fun q qDone =>
      all q (List.mem_append_left _ qDone)
  · have differs : start.tuple fce ≠ flow := alone fce (by simp)
    rw [marksOf_settleRule_other _ _ _ differs.symm]
    exact remarked.others flow fun p member => alone p (List.mem_append_left _ member)

theorem Remarked.foldl {rerule : List Rule → FlowEntry → UInt32 → List Rule}
    (ok : FlowsOk start) (mirror : RulesMirror start) (coherent : Coherent path drops start walk)
    (areFlows : ∀ p ∈ walk, p ∈ start.flows) (distinct : walk.Nodup)
    (settles : ∀ p ∈ walk, drops p = false → ∀ rules,
      rerule rules (start.heap p) (path p) = settleRule rules (start.heap p) (path p)) :
    Remarked path drops start walk (walk.foldl (handle path drops rerule) start).rules := by
  refine ((handled_nil ok).induction rerule (fun done s => Remarked path drops start done s.rules)
    (remarked_nil start) areFlows distinct ?_).2
  intro done s fce ahead member pending handled remarked
  have within : ∀ p ∈ done ++ [fce], p ∈ walk := fun p isDone => ahead.subset isDone
  have same := handled.untouched pending
  simp only [handle]
  cases dropped : drops fce with
  | true =>
      rw [if_pos rfl, same]
      exact remarked.snoc_dropped mirror coherent (areFlows fce member) areFlows within dropped
  | false =>
      rw [if_neg (by simp), same, settles fce member dropped]
      exact remarked.snoc_kept mirror coherent (areFlows fce member) within dropped

theorem Remarked.mirror {s : FlowMob} (remarked : Remarked path drops start walk s.rules)
    (handled : Handled path drops start walk s) (mirror : RulesMirror start)
    (areFlows : ∀ p ∈ walk, p ∈ start.flows)
    (whole : ∀ p ∈ walk, ∀ q ∈ start.flows, start.tuple p = start.tuple q → q ∈ walk) :
    RulesMirror s := by
  apply rulesMirror_of_marks
  · intro fce member
    obtain ⟨isFlow, notDropped⟩ := (handled.flows fce).mp member
    rw [handled.tuple, handled.heap]
    by_cases walked : fce ∈ walk
    · have keeps : drops fce = false := by
        by_contra drop
        exact notDropped ⟨walked, by simpa using drop⟩
      rw [if_pos ⟨walked, keeps⟩]
      exact remarked.moved fce walked keeps
    · rw [if_neg fun both => walked both.1]
      rw [remarked.others _ fun p member same => walked (whole p member fce isFlow same)]
      exact mirror.marked fce isFlow
  · intro flow foreign
    have dropped : ∀ p ∈ start.flows, start.tuple p = flow → p ∈ walk ∧ drops p = true := by
      intro p isFlow same
      by_contra stays
      refine foreign p ((handled.flows p).mpr ⟨isFlow, stays⟩) ?_
      rw [handled.tuple, same]
    by_cases shared : ∃ p ∈ start.flows, start.tuple p = flow
    · obtain ⟨p, isFlow, same⟩ := shared
      exact remarked.emptied flow ⟨p, (dropped p isFlow same).1, same⟩ fun q member qSame =>
        (dropped q (areFlows q member) qSame).2
    · have alone : ∀ p ∈ start.flows, start.tuple p ≠ flow := fun p isFlow same =>
        shared ⟨p, isFlow, same⟩
      rw [remarked.others flow fun p member => alone p (areFlows p member)]
      exact mirror.unmarked alone

structure Departed (start : FlowMob) (done : List Nat) (rules : List Rule) : Prop where
  distinct : ∀ flow, (marksOf rules flow).Nodup
  gone : ∀ p ∈ done, (start.heap p).mark ∉ marksOf rules (start.tuple p)

theorem departed_nil (mirror : RulesMirror start) : Departed start [] start.rules where
  distinct := by
    intro flow
    by_cases shared : ∃ p ∈ start.flows, start.tuple p = flow
    · obtain ⟨p, isFlow, rfl⟩ := shared
      rw [mirror.marked p isFlow]
      exact List.nodup_singleton _
    · rw [mirror.unmarked fun p isFlow same => shared ⟨p, isFlow, same⟩]
      exact List.nodup_nil
  gone := by simp

/-- Whatever else is done with the rule of a flow, its mark is deleted last. -/
theorem Departed.snoc (departed : Departed start done rules) (mirror : RulesMirror start)
    {fce : Nat} (isFlow : fce ∈ start.flows) (areFlows : ∀ p ∈ done, p ∈ start.flows)
    {other : List Rule} (nodup : (marksOf other (start.tuple fce)).Nodup)
    (same : ∀ flow, flow ≠ start.tuple fce → marksOf other flow = marksOf rules flow) :
    Departed start (done ++ [fce])
      (flowMarkerDeleteMark other (start.tuple fce) (start.heap fce).mark) := by
  constructor
  · intro flow
    by_cases here : flow = start.tuple fce
    · rw [here, marksOf_delete]
      exact nodup.erase _
    · rw [marksOf_delete_other _ _ here, same flow here]
      exact departed.distinct flow
  · intro p member
    have pFlow : p ∈ start.flows := by
      rcases List.mem_append.mp member with earlier | now
      · exact areFlows p earlier
      · rw [List.mem_singleton.mp now]
        exact isFlow
    by_cases here : start.tuple p = start.tuple fce
    · rw [here, marksOf_delete, mirror.mark_eq pFlow isFlow here]
      exact nodup.not_mem_erase
    · have earlier : p ∈ done := by
        rcases List.mem_append.mp member with earlier | now
        · exact earlier
        · exact absurd (congrArg start.tuple (List.mem_singleton.mp now)) here
      rw [marksOf_delete_other _ _ here, same _ here]
      exact departed.gone p earlier

theorem Departed.foldl (ok : FlowsOk start) (mirror : RulesMirror start)
    (areFlows : ∀ p ∈ walk, p ∈ start.flows) (distinct : walk.Nodup) :
    Departed start walk (walk.foldl (handle path drops moveRule) start).rules := by
  refine ((handled_nil ok).induction moveRule (fun done s => Departed start done s.rules)
    (departed_nil mirror) areFlows distinct ?_).2
  intro done s fce ahead member pending handled departed
  have doneFlows : ∀ p ∈ done, p ∈ start.flows := fun p isDone =>
    areFlows p (ahead.subset (List.mem_append_left _ isDone))
  simp only [handle]
  rw [handled.untouched pending]
  cases drops fce with
  | true =>
      exact departed.snoc mirror (areFlows fce member) doneFlows (departed.distinct _)
        fun _ _ => rfl
  | false =>
      refine departed.snoc mirror (areFlows fce member) doneFlows ?_ fun flow differs =>
        marksOf_add_other s.rules (path fce) differs
      rw [tuple, marksOf_add]
      exact (departed.distinct _).insert

end Remark

/-! ## A link comes up or goes down -/

section LinkUp
variable {marks : List (In6Addr × UInt32)} {d : Daemon} {rand : Nat → Nat} {start s : FlowMob}

theorem handle_client (path : Nat → UInt32) (drops : Nat → Bool)
    (rerule : List Rule → FlowEntry → UInt32 → List Rule) (fce p : Nat) :
    ((handle path drops rerule s fce).heap p).clientNai = (s.heap p).clientNai := by
  unfold handle
  dsimp only
  split
  · rfl
  · by_cases here : p = fce
    · simp [here]
    · simp [here]

/-- The path that `flowScheduler_new_path` finds for a flow. -/
def newPath (marks : List (In6Addr × UInt32)) (d : Daemon) (rand : Nat → Nat) (s : FlowMob)
    (fce : Nat) : UInt32 :=
  getFlowFwmark marks d.clients (s.heap fce).clientNai (rand fce)

theorem flowSchedulerNewPath_eq (fce : Nat)
    (client : (s.heap fce).clientNai = (start.heap fce).clientNai) :
    flowSchedulerNewPath marks d rand s fce =
      (handle (newPath marks d rand start) (fun _ => false) settleRule s fce, false) := by
  unfold flowSchedulerNewPath handle settleRule newPath
  rw [← client]
  dsimp only
  by_cases differs : getFlowFwmark marks d.clients (s.heap fce).clientNai (rand fce) ≠
      (s.heap fce).mark
  · rw [if_pos differs, if_pos differs]
    rfl
  · rw [if_neg differs, if_neg differs]
    rw [not_not.mp differs]
    simp

theorem iterate_newPath (walk : List Nat)
    (clients : ∀ p, (s.heap p).clientNai = (start.heap p).clientNai) :
    iterate (flowSchedulerNewPath marks d rand) s walk =
      walk.foldl (handle (newPath marks d rand start) (fun _ => false) settleRule) s := by
  induction walk generalizing s with
  | nil => rfl
  | cons fce rest ih =>
      rw [iterate, flowSchedulerNewPath_eq fce (clients fce), List.foldl_cons]
      apply ih
      intro p
      rw [handle_client, clients p]

variable (marks d rand) in
theorem linkUp_handled (ok : FlowsOk s) :
    Handled (newPath marks d rand s) (fun _ => false) s s.flows
      (s.flowSchedulerLinkUp marks d rand) := by
  rw [flowSchedulerLinkUp, iterate_newPath _ fun _ => rfl]
  exact (handled_nil ok).foldl settleRule (fun p member => member) ok.nodup

def UpFits (marks : List (In6Addr × UInt32)) (d : Daemon) (rand : Nat → Nat) (s : FlowMob) : Prop :=
  ∀ p ∈ s.flows, ∀ q ∈ s.flows, s.tuple p = s.tuple q →
    newPath marks d rand s p = newPath marks d rand s q

theorem linkUp_keeps_iff (ok : FlowsOk s) (mirror : RulesMirror s) :
    UpFits marks d rand s ↔ RulesMirror (s.flowSchedulerLinkUp marks d rand) := by
  have handled := linkUp_handled marks d rand ok
  constructor
  · intro fits
    have coherent : Coherent (newPath marks d rand s) (fun _ => false) s s.flows :=
      ⟨fun p pFlow q qFlow same _ _ => fits p pFlow q qFlow same, by simp⟩
    have remarked : Remarked (newPath marks d rand s) (fun _ => false) s s.flows
        (s.flowSchedulerLinkUp marks d rand).rules := by
      rw [flowSchedulerLinkUp, iterate_newPath _ fun _ => rfl]
      exact Remarked.foldl ok mirror coherent (fun p member => member) ok.nodup fun _ _ _ _ => rfl
    exact remarked.mirror handled mirror (fun p member => member) fun _ _ q isFlow _ => isFlow
  · intro after p pFlow q qFlow same
    have present : ∀ fce ∈ s.flows, fce ∈ (s.flowSchedulerLinkUp marks d rand).flows := by
      intro fce isFlow
      exact (handled.flows fce).mpr ⟨isFlow, by simp⟩
    have marked : ∀ fce ∈ s.flows, ((s.flowSchedulerLinkUp marks d rand).heap fce).mark =
        newPath marks d rand s fce := by
      intro fce isFlow
      rw [handled.heap, if_pos ⟨isFlow, rfl⟩]
    rw [← marked p pFlow, ← marked q qFlow]
    apply after.mark_eq (present p pFlow) (present q qFlow)
    rw [handled.tuple, handled.tuple, same]

end LinkUp

def rescheduled (mnNai : Nai) (stray : Nat → Bool) (s : FlowMob) : List Nat → List Nat
  | [] => []
  | fce :: rest =>
      if (s.heap fce).clientNai ≠ mnNai then
        if stray fce then [] else rescheduled mnNai stray s rest
      else fce :: rescheduled mnNai stray s rest

section LinkDown
variable {marks : List (In6Addr × UInt32)} {d : Daemon} {mnNai : Nai} {rand : Nat → Nat}
  {stray : Nat → Bool} {start s : FlowMob}

theorem rescheduled_sublist (walk : List Nat) :
    (rescheduled mnNai stray s walk).Sublist walk := by
  induction walk with
  | nil => exact List.Sublist.slnil
  | cons fce rest ih =>
      simp only [rescheduled]
      split
      · split
        · exact List.nil_sublist _
        · exact ih.cons _
      · exact ih.cons_cons _

/-- The path that `flowScheduler_change_mark` finds for a flow of the client. -/
def nextPath (marks : List (In6Addr × UInt32)) (d : Daemon) (mnNai : Nai) (rand : Nat → Nat)
    (fce : Nat) : UInt32 :=
  getFlowFwmark marks d.clients mnNai (rand fce)

def pathless (marks : List (In6Addr × UInt32)) (d : Daemon) (mnNai : Nai) (rand : Nat → Nat)
    (fce : Nat) : Bool :=
  nextPath marks d mnNai rand fce = 0

theorem flowSchedulerChangeMark_eq (fce : Nat) :
    flowSchedulerChangeMark marks d mnNai rand stray s fce =
      if (s.heap fce).clientNai ≠ mnNai then (s, stray fce)
      else (handle (nextPath marks d mnNai rand) (pathless marks d mnNai rand) moveRule s fce,
        false) := by
  unfold flowSchedulerChangeMark handle pathless nextPath moveRule
  dsimp only
  split
  · rfl
  · by_cases none : getFlowFwmark marks d.clients mnNai (rand fce) = 0
    · simp [none]
    · simp [none]

theorem iterate_changeMark (walk : List Nat)
    (clients : ∀ p, (s.heap p).clientNai = (start.heap p).clientNai) :
    iterate (flowSchedulerChangeMark marks d mnNai rand stray) s walk =
      (rescheduled mnNai stray start walk).foldl
        (handle (nextPath marks d mnNai rand) (pathless marks d mnNai rand) moveRule) s := by
  induction walk generalizing s with
  | nil => rfl
  | cons fce rest ih =>
      rw [iterate, flowSchedulerChangeMark_eq, rescheduled, clients fce]
      by_cases foreign : (start.heap fce).clientNai ≠ mnNai
      · rw [if_pos foreign, if_pos foreign]
        cases stray fce with
        | true => rfl
        | false => exact ih clients
      · rw [if_neg foreign, if_neg foreign, List.foldl_cons]
        apply ih
        intro p
        rw [handle_client, clients p]

def reachedFlows (mnNai : Nai) (stray : Nat → Bool) (s : FlowMob) : List Nat :=
  rescheduled mnNai stray s s.flows

variable (marks d mnNai rand stray) in
theorem linkDown_handled (ok : FlowsOk s) :
    Handled (nextPath marks d mnNai rand) (pathless marks d mnNai rand) s
      (reachedFlows mnNai stray s) (s.flowSchedulerLinkDown marks d mnNai rand stray) := by
  rw [flowSchedulerLinkDown, iterate_changeMark _ fun _ => rfl]
  exact (handled_nil ok).foldl moveRule (rescheduled_sublist _).subset
    (ok.nodup.sublist (rescheduled_sublist _))

/-- Every flow that is reached loses its path or moves to another one, those of
one rule that move go to one path, and none of them is left behind. -/
structure DownFits (marks : List (In6Addr × UInt32)) (d : Daemon) (mnNai : Nai) (rand : Nat → Nat)
    (stray : Nat → Bool) (s : FlowMob) : Prop where
  moves : ∀ p ∈ reachedFlows mnNai stray s,
    nextPath marks d mnNai rand p = 0 ∨ nextPath marks d mnNai rand p ≠ (s.heap p).mark
  alike : ∀ p ∈ reachedFlows mnNai stray s, ∀ q ∈ reachedFlows mnNai stray s,
    s.tuple p = s.tuple q → nextPath marks d mnNai rand p ≠ 0 → nextPath marks d mnNai rand q ≠ 0 →
    nextPath marks d mnNai rand p = nextPath marks d mnNai rand q
  whole : ∀ p ∈ reachedFlows mnNai stray s, ∀ q ∈ s.flows, s.tuple p = s.tuple q →
    q ∈ reachedFlows mnNai stray s

theorem DownFits.coherent (fits : DownFits marks d mnNai rand stray s) :
    Coherent (nextPath marks d mnNai rand) (pathless marks d mnNai rand) s
      (reachedFlows mnNai stray s) where
  alike := by
    intro p pWalked q qWalked same pKept qKept
    exact fits.alike p pWalked q qWalked same (by simpa [pathless] using pKept)
      (by simpa [pathless] using qKept)
  leaves := by
    intro p _ q qWalked _ _ kept
    exact (fits.moves q qWalked).resolve_left (by simpa [pathless] using kept)

theorem DownFits.keeps (fits : DownFits marks d mnNai rand stray s) (ok : FlowsOk s)
    (mirror : RulesMirror s) :
    RulesMirror (s.flowSchedulerLinkDown marks d mnNai rand stray) := by
  have areFlows : ∀ p ∈ reachedFlows mnNai stray s, p ∈ s.flows := (rescheduled_sublist _).subset
  have remarked : Remarked (nextPath marks d mnNai rand) (pathless marks d mnNai rand) s
      (reachedFlows mnNai stray s)
      (s.flowSchedulerLinkDown marks d mnNai rand stray).rules := by
    rw [flowSchedulerLinkDown, iterate_changeMark _ fun _ => rfl]
    refine Remarked.foldl ok mirror fits.coherent areFlows
      (ok.nodup.sublist (rescheduled_sublist _)) fun p member kept rules => ?_
    have differs := (fits.moves p member).resolve_left (by simpa [pathless] using kept)
    rw [settleRule, if_pos differs]
  exact remarked.mirror (linkDown_handled marks d mnNai rand stray ok) mirror areFlows fits.whole

theorem downFits_of_mirror (ok : FlowsOk s) (mirror : RulesMirror s)
    (after : RulesMirror (s.flowSchedulerLinkDown marks d mnNai rand stray)) :
    DownFits marks d mnNai rand stray s := by
  have handled := linkDown_handled marks d mnNai rand stray ok
  have areFlows : ∀ p ∈ reachedFlows mnNai stray s, p ∈ s.flows := (rescheduled_sublist _).subset
  have departed : Departed s (reachedFlows mnNai stray s)
      (s.flowSchedulerLinkDown marks d mnNai rand stray).rules := by
    rw [flowSchedulerLinkDown, iterate_changeMark _ fun _ => rfl]
    exact Departed.foldl ok mirror areFlows
      (ok.nodup.sublist (rescheduled_sublist _))
  have moved : ∀ p ∈ reachedFlows mnNai stray s, nextPath marks d mnNai rand p ≠ 0 →
      p ∈ (s.flowSchedulerLinkDown marks d mnNai rand stray).flows ∧
        ((s.flowSchedulerLinkDown marks d mnNai rand stray).heap p).mark =
          nextPath marks d mnNai rand p := by
    intro p walked path
    have kept : pathless marks d mnNai rand p = false := by simpa [pathless] using path
    refine ⟨(handled.flows p).mpr ⟨areFlows p walked, by simp [kept]⟩, ?_⟩
    rw [handled.heap, if_pos ⟨walked, kept⟩]
  refine ⟨fun p walked => ?_, fun p pWalked q qWalked same pPath qPath => ?_,
    fun p walked q isFlow same => ?_⟩
  · by_contra stays
    obtain ⟨path, isMark⟩ := not_or.mp stays
    obtain ⟨present, mark⟩ := moved p walked path
    have marks := after.marked p present
    rw [handled.tuple, mark, not_not.mp isMark] at marks
    exact departed.gone p walked (by simp [marks])
  · obtain ⟨pPresent, pMark⟩ := moved p pWalked pPath
    obtain ⟨qPresent, qMark⟩ := moved q qWalked qPath
    rw [← pMark, ← qMark]
    apply after.mark_eq pPresent qPresent
    rw [handled.tuple, handled.tuple, same]
  · by_contra left
    have present : q ∈ (s.flowSchedulerLinkDown marks d mnNai rand stray).flows :=
      (handled.flows q).mpr ⟨isFlow, fun both => left both.1⟩
    have marks := after.marked q present
    rw [handled.tuple, handled.untouched left, ← same,
      ← mirror.mark_eq (areFlows p walked) isFlow same] at marks
    exact departed.gone p walked (by simp [marks])

end LinkDown

def KeepsRules (marks : List (In6Addr × UInt32)) (s : FlowMob) : FlowInput → Prop
  | .packet d k rand alloc node =>
      Opens marks d s k rand → alloc = true → Fits s (newFlow d k (newMark marks d k rand)) node
  | .linkUp d rand => UpFits marks d rand s
  | .linkDown d mnNai rand stray => DownFits marks d mnNai rand stray s

section Runs
variable {marks : List (In6Addr × UInt32)}

theorem FlowsOk.step {s s' : FlowMob} {input : FlowInput} (ok : FlowsOk s)
    (taken : s.step marks input = .ok s') : FlowsOk s' := by
  cases input with
  | packet d k rand alloc node => exact ok.scheduled taken
  | linkUp d rand =>
      cases taken
      exact (linkUp_handled marks d rand ok).ok
  | linkDown d mnNai rand stray =>
      cases taken
      exact (linkDown_handled marks d mnNai rand stray ok).ok

theorem step_keeps_iff {s : FlowMob} (input : FlowInput) (ok : FlowsOk s) (mirror : RulesMirror s) :
    KeepsRules marks s input ↔ ∀ s', s.step marks input = .ok s' → RulesMirror s' := by
  cases input with
  | packet d k rand alloc node => exact packet_keeps_iff ok mirror
  | linkUp d rand =>
      simp only [FlowMob.step, Except.ok.injEq, forall_eq']
      exact linkUp_keeps_iff ok mirror
  | linkDown d mnNai rand stray =>
      simp only [FlowMob.step, Except.ok.injEq, forall_eq']
      exact ⟨fun fits => fits.keeps ok mirror, downFits_of_mirror ok mirror⟩

end Runs

/-- The rules mirror the cache in every state of a run exactly when every call
meets the condition. -/
theorem rules_mirror_flows (marks : List (In6Addr × UInt32)) (inputs : List FlowInput) :
    Meets (FlowMob.step marks) (KeepsRules marks) init inputs ↔
      ∀ earlier later s, inputs = earlier ++ later → run (FlowMob.step marks) init earlier = .ok s →
        RulesMirror s := by
  have kept : ∀ s input s', FlowsOk s → s.step marks input = .ok s' → FlowsOk s' :=
    fun s input s' ok taken => ok.step taken
  exact meets_iff_reached kept (fun s input => step_keeps_iff input) flowsOk_init rulesMirror_init

def flowClient : Nai := ⟨List.replicate 63 1, rfl⟩

def servedBy (mags : List In6Addr) : Daemon :=
  { Daemon.init Tunnels.init [] with
    heap := fun _ =>
      { PmipEntry.blank .pmip with
        mnNai := flowClient
        mnAddr := in6addrLoopback
        bid := 1 }
    live := fun bce => bce = 0
    top := 1
    hash := append (ChainTable.empty pmipCacheBuckets Nat) 0 0
    count := 1
    clients := [⟨flowClient, mags⟩] }

/-- The client of a flow loses the other one of its two MAGs: the flow stays on
its path, and the rule that was just found in place is deleted. -/
theorem rules_lost_on_same_path :
    let magA : In6Addr := ⟨[0, 0, 0, 0, 0, 0, 0, 0, 0, 0, 0, 0, 0, 0, 0, 2], rfl⟩
    let magB : In6Addr := ⟨[0, 0, 0, 0, 0, 0, 0, 0, 0, 0, 0, 0, 0, 0, 0, 3], rfl⟩
    ∃ s, run (FlowMob.step [(magA, 1), (magB, 2)]) init
        [.packet (servedBy [magA, magB])
          { ip6Source := in6addrAny
            ip6Destination := in6addrLoopback
            transportProtocol := 17
            transportSourcePort := 1000
            transportDestinationPort := 2000
            trafficClass := 0
            flowLabel := 0 } 0 true true,
          .linkDown (servedBy [magA]) flowClient (fun _ => 0) fun _ => false] = .ok s ∧
      s.flows = [0] ∧ (s.heap 0).mark = 1 ∧ s.rules = [] ∧ ¬ RulesMirror s := by
  refine ⟨_, rfl, by decide +kernel, by decide +kernel, by decide +kernel, fun mirror => ?_⟩
  have marked := mirror.marked 0 (by decide +kernel)
  revert marked
  decide +kernel

end FlowMob

end OaiPmip
