import OaiPmip.FlowMarks

/-!
# The cache of flows in the memory of its table

The link of a node is read before the callback runs, which may take the node out
of its chain and free it.  A memory `Holds` the cache when its chains are those
of the cache; the iterations are compared with `iterate` on such memories, where
the read of a freed node has no result.
-/

set_option autoImplicit false

namespace OaiPmip

open OaiPmip.ChainTable OaiPmip.HashChains OaiPmip.Runs

namespace FlowMob

abbrev FlowHash := Hash flowmobCacheBuckets Nat

/-- The nodes of the chains, and the entries that they name. -/
structure HeldBy (s : FlowMob) (h : FlowHash) (chains : Table flowmobCacheBuckets (Ptr × Nat)) :
    Prop where
  represents : Represents h chains
  entries : ∀ b, (chains b).map Prod.snd = s.hash b

def Holds (h : FlowHash) (s : FlowMob) : Prop := ∃ chains, HeldBy s h chains

/-! ## Iterations on the memory -/

section Callbacks
variable (marks : List (In6Addr × UInt32)) (d : Daemon) (mnNai : Nai) (rand : Nat → Nat)
  (stray : Nat → Bool)

/-- `flowScheduler_change_mark`, where `flowmob_entry_delete` takes the node out
of the memory. -/
def changeMarkCall (state : FlowHash × FlowMob) (fce : Nat) :
    Option ((FlowHash × FlowMob) × Int) :=
  let (h, s) := state
  let (s', ends) := flowSchedulerChangeMark marks d mnNai rand stray s fce
  if (s.heap fce).clientNai ≠ mnNai then some ((h, s'), if ends then 1 else 0)
  else if getFlowFwmark marks d.clients mnNai (rand fce) = 0 then
    (chainDelete flowCalcHash s.key h (s.key fce)).map fun h' => ((h', s'), 0)
  else some ((h, s'), 0)

/-- `flowScheduler_new_path`. -/
def newPathCall (state : FlowHash × FlowMob) (fce : Nat) : Option ((FlowHash × FlowMob) × Int) :=
  some ((state.1, (flowSchedulerNewPath marks d rand state.2 fce).1), 0)

end Callbacks

theorem iterate_eq_walk (func : FlowMob → Nat → FlowMob × Bool) (s : FlowMob) (walked : List Nat) :
    iterate func s walked = (walk func s walked).1 := by
  induction walked generalizing s with
  | nil => rfl
  | cons fce rest ih =>
      rw [iterate, walk]
      cases func s fce with
      | mk next stops =>
          cases stops with
          | true => rfl
          | false => exact ih next

section Held
variable {s : FlowMob} {h : FlowHash} {chains : Table flowmobCacheBuckets (Ptr × Nat)}

theorem HeldBy.walked (held : HeldBy s h chains) : (toList chains).map Prod.snd = s.flows := by
  rw [toList, List.map_flatMap]
  exact List.flatMap_congr fun b _ => held.entries b

theorem HeldBy.mem (held : HeldBy s h chains) {b : Fin flowmobCacheBuckets}
    {done rest : List (Ptr × Nat)} {p : Ptr} {fce : Nat}
    (split : chains b = done ++ (p, fce) :: rest) :
    fce ∈ s.flows := by
  refine (mem_toList s.hash fce).mpr ⟨b, ?_⟩
  rw [← held.entries b, split]
  simp

theorem HeldBy.placed (held : HeldBy s h chains) (ok : FlowsOk s) :
    Placed flowCalcHash (nodeKey s.key) chains := by
  intro b node member
  refine ok.placed b node.2 ?_
  rw [← held.entries b]
  exact List.mem_map_of_mem member

theorem HeldBy.erased {h' : FlowHash} (held : HeldBy s h chains) (fce : Nat)
    (represents : Represents h' (erase flowCalcHash (nodeKey s.key) chains (s.key fce))) :
    HeldBy (s.flowmobEntryDelete fce) h'
      (erase flowCalcHash (nodeKey s.key) chains (s.key fce)) where
  represents := represents
  entries := by
    intro b
    exact erase_map held.entries (s.key fce) b

/-- The entries that a memory holds do not depend on what else the state has. -/
theorem HeldBy.of_hash {s' : FlowMob} (held : HeldBy s h chains) (same : s'.hash = s.hash) :
    HeldBy s' h chains where
  represents := held.represents
  entries := by
    rw [same]
    exact held.entries

end Held

theorem handle_ok {s : FlowMob} (ok : FlowsOk s) {fce : Nat} (isFlow : fce ∈ s.flows)
    (path : Nat → UInt32) (drops : Nat → Bool)
    (rerule : List Rule → FlowEntry → UInt32 → List Rule) :
    FlowsOk (handle path drops rerule s fce) :=
  ((handled_nil ok).snoc rerule isFlow List.not_mem_nil).ok

section Simulations
variable (marks : List (In6Addr × UInt32)) (d : Daemon) (mnNai : Nai) (rand : Nat → Nat)
  (stray : Nat → Bool)

def Between (h : FlowHash) (s : FlowMob) (chains : Table flowmobCacheBuckets (Ptr × Nat)) : Prop :=
  HeldBy s h chains ∧ FlowsOk s

theorem call_unlinked {s s' : FlowMob} {h : FlowHash}
    {chains : Table flowmobCacheBuckets (Ptr × Nat)} {b : Fin flowmobCacheBuckets}
    {done rest : List (Ptr × Nat)} {node : Ptr × Nat} (held : HeldBy s h chains)
    (split : chains b = done ++ node :: rest) (ok : FlowsOk s') (same : s'.hash = s.hash) :
    Between h s' chains ∧ chains b = (done ++ [node]) ++ rest ∧
      ∀ c, c ≠ b → chains c = chains c :=
  ⟨⟨held.of_hash same, ok⟩, by rw [split]; simp, fun _ _ => rfl⟩

theorem newPath_simulates :
    Simulates (newPathCall marks d rand) (flowSchedulerNewPath marks d rand) Between where
  represents := fun between => between.1.represents
  call := by
    intro h s chains b done rest p fce between split
    obtain ⟨held, ok⟩ := between
    have isFlow := held.mem split
    have step := @flowSchedulerNewPath_eq marks d rand s s fce rfl
    rw [step]
    obtain ⟨between', split', others⟩ := call_unlinked held split
      (handle_ok ok isFlow (newPath marks d rand s) (fun _ => false) settleRule) rfl
    exact ⟨h, chains, done ++ [(p, fce)], 0, by rw [newPathCall, step], by simp, between', split',
      others⟩

theorem changeMark_simulates :
    Simulates (changeMarkCall marks d mnNai rand stray)
      (flowSchedulerChangeMark marks d mnNai rand stray) Between where
  represents := fun between => between.1.represents
  call := by
    intro h s chains b done rest p fce between split
    obtain ⟨held, ok⟩ := between
    have isFlow := held.mem split
    have step := @flowSchedulerChangeMark_eq marks d mnNai rand stray s fce
    by_cases foreign : (s.heap fce).clientNai ≠ mnNai
    · rw [if_pos foreign] at step
      obtain ⟨between', split', others⟩ := call_unlinked held split ok rfl
      refine ⟨h, chains, done ++ [(p, fce)], if stray fce then 1 else 0, ?_, ?_, ?_, split', others⟩
      · simp only [changeMarkCall, step, if_pos foreign]
      · rw [step]
        cases stray fce with
        | true => simp
        | false => simp
      · rw [step]
        exact between'
    · rw [if_neg foreign] at step
      have next := handle_ok ok isFlow (nextPath marks d mnNai rand)
        (pathless marks d mnNai rand) moveRule
      rw [step]
      by_cases none : getFlowFwmark marks d.clients mnNai (rand fce) = 0
      · have dropped : pathless marks d mnNai rand fce = true := decide_eq_true none
        obtain ⟨h', deleted, represents⟩ :=
          chainDelete_spec flowCalcHash s.key held.represents (s.key fce)
        obtain ⟨⟨done', erased⟩, others⟩ := erase_passed (held.placed ok) split
        refine ⟨h', _, done', 0, ?_, by simp, ⟨?_, next⟩, erased, others⟩
        · simp only [changeMarkCall, step, if_neg foreign, if_pos none, deleted, Option.map_some]
        · have removed := held.erased fce represents
          exact removed.of_hash (by rw [handle, if_pos dropped]; rfl)
      · have kept : ¬ pathless marks d mnNai rand fce = true := fun dropped =>
          none (of_decide_eq_true dropped)
        obtain ⟨between', split', others⟩ :=
          call_unlinked held split next (by rw [handle, if_neg kept])
        refine ⟨h, chains, done ++ [(p, fce)], 0, ?_, by simp, between', split', others⟩
        simp only [changeMarkCall, step, if_neg foreign, if_neg none]

/-- A link that goes down walks the memory to its end, without a read of a node
that it has freed, and leaves a memory of the flows that remain. -/
theorem linkDown_memory {h : FlowHash} {s : FlowMob} (ok : FlowsOk s) (holds : Holds h s) :
    ∃ h' err, chainIterate (changeMarkCall marks d mnNai rand stray) (h, s) =
        some ((h', s.flowSchedulerLinkDown marks d mnNai rand stray), err) ∧
      Holds h' (s.flowSchedulerLinkDown marks d mnNai rand stray) := by
  obtain ⟨chains, held⟩ := holds
  obtain ⟨h', chains', err, iterated, _, held', _⟩ :=
    (changeMark_simulates marks d mnNai rand stray).chainIterate ⟨held, ok⟩
  rw [held.walked] at iterated held'
  rw [flowSchedulerLinkDown, iterate_eq_walk]
  exact ⟨h', err, iterated, chains', held'⟩

theorem linkUp_memory {h : FlowHash} {s : FlowMob} (ok : FlowsOk s) (holds : Holds h s) :
    ∃ h' err, chainIterate (newPathCall marks d rand) (h, s) =
        some ((h', s.flowSchedulerLinkUp marks d rand), err) ∧
      Holds h' (s.flowSchedulerLinkUp marks d rand) := by
  obtain ⟨chains, held⟩ := holds
  obtain ⟨h', chains', err, iterated, _, held', _⟩ :=
    (newPath_simulates marks d rand).chainIterate ⟨held, ok⟩
  rw [held.walked] at iterated held'
  rw [flowSchedulerLinkUp, iterate_eq_walk]
  exact ⟨h', err, iterated, chains', held'⟩

end Simulations

/-! ## Flows that are added and removed -/

section Added
variable {s : FlowMob} {h : FlowHash} (entry : FlowEntry) (node : Bool)

theorem added_memory (holds : Holds h s) :
    ∃ h' ret, chainAdd flowCalcHash (s.flowmobCacheAdd entry node).key h s.top node =
        some (h', ret) ∧ Holds h' (s.flowmobCacheAdd entry node) := by
  obtain ⟨chains, held⟩ := holds
  obtain ⟨h', added, represents⟩ :=
    chainAdd_tableAdd flowCalcHash (s.flowmobCacheAdd entry node).key held.represents s.top node
  exact ⟨h', _, added, _, represents, tableAdd_map held.entries (h.top, s.top) node⟩

theorem flowmobCacheAdd_counted (counted : s.count = s.flows.length) :
    (s.flowmobCacheAdd entry node).count = (s.flowmobCacheAdd entry node).flows.length := by
  simp only [flowmobCacheAdd, flows, tableAdd]
  split
  · split
    · exact counted
    · rw [(toList_append_perm _ _ _).length_eq, List.length_cons]
      change s.count + 1 = ((s.flows.length + 1 : Nat) : Int)
      omega
  · exact counted

end Added

/-- A key that only one node of a list has removes that node. -/
theorem eraseP_key {N K : Type} [DecidableEq N] [DecidableEq K] {key : N → K} {n : N}
    {nodes : List N} (alone : ∀ m ∈ nodes, key m = key n → m = n) :
    nodes.eraseP (fun m => key m = key n) = nodes.erase n := by
  induction nodes with
  | nil => rfl
  | cons m rest ih =>
      by_cases here : m = n
      · simp [here]
      · have differs : key m ≠ key n := fun same => here (alone m List.mem_cons_self same)
        have later := ih fun other member => alone other (List.mem_cons_of_mem m member)
        simp [here, differs, later]

section Removed
variable {s : FlowMob}

theorem FlowsOk.deleted_flows (ok : FlowsOk s) {fce : Nat} (isFlow : fce ∈ s.flows) :
    (s.flowmobEntryDelete fce).flows = s.flows.erase fce := by
  change toList (erase flowCalcHash s.key s.hash (s.key fce)) = _
  rw [toList_erase ok.placed]
  exact eraseP_key fun p pFlow same => ok.key_inj pFlow isFlow same

theorem handle_counted (ok : FlowsOk s) {fce : Nat} (isFlow : fce ∈ s.flows)
    (path : Nat → UInt32) (drops : Nat → Bool)
    (rerule : List Rule → FlowEntry → UInt32 → List Rule) (counted : s.count = s.flows.length) :
    (handle path drops rerule s fce).count = (handle path drops rerule s fce).flows.length := by
  simp only [handle]
  split
  · change s.count - 1 = ((s.flowmobEntryDelete fce).flows.length : Int)
    rw [ok.deleted_flows isFlow, List.length_erase_of_mem isFlow]
    have positive := List.length_pos_of_mem isFlow
    omega
  · exact counted

theorem foldl_counted (ok : FlowsOk s) {walked : List Nat} (areFlows : ∀ p ∈ walked, p ∈ s.flows)
    (distinct : walked.Nodup) (path : Nat → UInt32) (drops : Nat → Bool)
    (rerule : List Rule → FlowEntry → UInt32 → List Rule) (counted : s.count = s.flows.length) :
    (walked.foldl (handle path drops rerule) s).count =
      (walked.foldl (handle path drops rerule) s).flows.length := by
  refine ((handled_nil ok).induction rerule (fun _ t => t.count = t.flows.length) counted areFlows
    distinct ?_).2
  intro done t fce _ member pending handled counted
  have present : fce ∈ t.flows :=
    (handled.flows fce).mpr ⟨areFlows fce member, fun both => pending both.1⟩
  exact handle_counted handled.ok present path drops rerule counted

end Removed

structure CacheKept (s : FlowMob) : Prop where
  ok : FlowsOk s
  counted : s.count = s.flows.length
  held : ∃ h, Holds h s

theorem cacheKept_init : CacheKept init where
  ok := flowsOk_init
  counted := by simp [flows, init]
  held := ⟨hashInit _ Nat, ChainTable.empty _ _, represents_hashInit, fun _ => rfl⟩

section Runs
variable {marks : List (In6Addr × UInt32)} {s s' : FlowMob}

theorem CacheKept.step {input : FlowInput} (kept : CacheKept s)
    (taken : s.step marks input = .ok s') : CacheKept s' := by
  have ok := kept.ok.step taken
  obtain ⟨h, holds⟩ := kept.held
  cases input with
  | packet d k rand alloc node =>
      rcases @schedulePacket_cases marks d s k rand alloc node with ⟨_, same⟩ | ⟨_, next⟩
      · cases same.symm.trans taken
        exact kept
      · change s.schedulePacket marks d k rand alloc node = _ at taken
        rw [next] at taken
        cases alloc with
        | false => cases taken
        | true =>
            cases taken
            obtain ⟨h', _, _, chains, held⟩ :=
              added_memory (newFlow d k (newMark marks d k rand)) node holds
            exact ⟨ok, flowmobCacheAdd_counted _ node kept.counted, h', chains, held.of_hash rfl⟩
  | linkUp d rand =>
      cases taken
      obtain ⟨h', _, _, holds'⟩ := linkUp_memory marks d rand kept.ok holds
      refine ⟨ok, ?_, h', holds'⟩
      rw [flowSchedulerLinkUp, iterate_newPath _ fun _ => rfl]
      exact foldl_counted kept.ok (fun p member => member) kept.ok.nodup _ _ _ kept.counted
  | linkDown d mnNai rand stray =>
      cases taken
      obtain ⟨h', _, _, holds'⟩ := linkDown_memory marks d mnNai rand stray kept.ok holds
      refine ⟨ok, ?_, h', holds'⟩
      rw [flowSchedulerLinkDown, iterate_changeMark _ fun _ => rfl]
      exact foldl_counted kept.ok (rescheduled_sublist _).subset
        (kept.ok.nodup.sublist (rescheduled_sublist _)) _ _ _ kept.counted

theorem changeMark_next (ok : FlowsOk s) (d : Daemon) (mnNai : Nai) (rand : Nat → Nat)
    (stray : Nat → Bool) {walked rest : List Nat} {fce : Nat}
    (split : s.flows = walked ++ fce :: rest) :
    FlowsOk (iterate (flowSchedulerChangeMark marks d mnNai rand stray) s walked) ∧
      fce ∈ (iterate (flowSchedulerChangeMark marks d mnNai rand stray) s walked).flows := by
  have distinct := ok.nodup
  rw [split] at distinct
  have pending : fce ∉ walked := fun member =>
    (List.nodup_append.mp distinct).2.2 fce member fce List.mem_cons_self rfl
  have passed : (rescheduled mnNai stray s walked).Sublist walked := rescheduled_sublist walked
  have areFlows : ∀ p ∈ rescheduled mnNai stray s walked, p ∈ s.flows := by
    intro p member
    rw [split]
    exact List.mem_append_left _ (passed.subset member)
  have start : Handled (nextPath marks d mnNai rand) (pathless marks d mnNai rand) s [] s :=
    handled_nil ok
  have handled := start.foldl moveRule areFlows ((List.nodup_append.mp distinct).1.sublist passed)
  rw [iterate_changeMark walked fun _ => rfl]
  refine ⟨handled.ok, (handled.flows fce).mpr ⟨?_, fun both => pending (passed.subset both.1)⟩⟩
  rw [split]
  simp

/-- After any calls the cached flows differ in their keys and are as many as are
counted, some memory holds them, and a link that goes down walks any such memory
to its end.  A flow that is deleted on the way is the only one to go. -/
theorem flow_cache_integrity {inputs : List FlowInput}
    (reached : run (FlowMob.step marks) init inputs = .ok s) :
    (s.flows.map s.key).Nodup ∧ s.count = s.flows.length ∧ (∃ h, Holds h s) ∧
      ∀ d mnNai rand stray,
        (∀ h, Holds h s → ∃ h' err,
          chainIterate (changeMarkCall marks d mnNai rand stray) (h, s) =
            some ((h', s.flowSchedulerLinkDown marks d mnNai rand stray), err) ∧
          Holds h' (s.flowSchedulerLinkDown marks d mnNai rand stray)) ∧
        ∀ walked fce rest, s.flows = walked ++ fce :: rest →
          let t := iterate (flowSchedulerChangeMark marks d mnNai rand stray) s walked
          fce ∈ t.flows ∧ (t.flowmobEntryDelete fce).flows = t.flows.erase fce ∧
            (t.flowmobEntryDelete fce).heap = t.heap := by
  have kept : CacheKept s := run_invariant (fun s input s' kept _ taken => kept.step taken)
    cacheKept_init (meets_always (fun _ _ => trivial) inputs init) reached
  refine ⟨kept.ok.keys, kept.counted, kept.held, fun d mnNai rand stray => ⟨fun h holds => ?_,
    fun walked fce rest split => ?_⟩⟩
  · exact linkDown_memory marks d mnNai rand stray kept.ok holds
  · obtain ⟨ok, present⟩ := changeMark_next kept.ok d mnNai rand stray split
    exact ⟨present, ok.deleted_flows present, rfl⟩

end Runs

/-- Two flows of one bucket, of which the first is deleted. -/
theorem flow_cache_integrity_shared :
    ∃ s, run (FlowMob.step twoMarks) init
        [.packet (servedBy [firstMag]) (flowTo 1000) 0 true true,
          .packet (servedBy [firstMag]) (flowTo 1001) 0 true true] = .ok s ∧
      s.count = 2 ∧ flowCalcHash (s.key 0) = flowCalcHash (s.key 1) ∧
      (s.flowmobEntryDelete 0).flows = [1] := by
  obtain ⟨_, counted, _, walks⟩ := @flow_cache_integrity twoMarks _
    [.packet (servedBy [firstMag]) (flowTo 1000) 0 true true,
      .packet (servedBy [firstMag]) (flowTo 1001) 0 true true] rfl
  have deleted := (walks (servedBy []) flowClient (fun _ => 0) fun _ => false).2 [] 0 [1]
    (by decide +kernel)
  exact ⟨_, rfl, counted.trans (by decide +kernel), by decide +kernel,
    deleted.2.1.trans (by decide +kernel)⟩

end FlowMob

end OaiPmip
