import OaiPmip.ClientMirror
import OaiPmip.FlowWalks

/-!
# The marks that the scheduler gives

The mark of a flow should be that of a MAG its client is served by.  The MAG is
drawn: it is the first of the client's list or the last one.  The theorems say
when the three calls of the scheduler keep to that.
-/

set_option autoImplicit false

namespace OaiPmip

open OaiPmip.ChainTable OaiPmip.HashChains
open OaiPmip.HashKeys (FlowKey)

namespace ClientRoutes

def listedMags (clients : List ClientRoute) (clientNai : Nai) : List In6Addr :=
  ((find clients clientNai).map ClientRoute.mags).getD []

/-- The MAGs that a client is left with.  The entry of a client that is left with
none goes, and would let another one of the same name come forward. -/
def remainingMags (clients : List ClientRoute) (clientNai : Nai) (mag : In6Addr) : List In6Addr :=
  if (listedMags clients clientNai).erase mag = [] then
    listedMags (clients.eraseP fun other => other.clientNai = clientNai) clientNai
  else (listedMags clients clientNai).erase mag

section Listed
variable {clients : List ClientRoute} {clientNai : Nai} {mag : In6Addr}

theorem find_setMags {client : ClientRoute} (found : find clients clientNai = some client)
    (mags : List In6Addr) :
    find (setMags clientNai mags clients) clientNai = some { client with mags := mags } := by
  induction clients with
  | nil => cases found
  | cons first rest ih =>
      simp only [setMags]
      by_cases here : first.clientNai = clientNai
      · have isFirst : first = client := by simpa [find, here] using found
        rw [if_pos here, isFirst]
        simp [find, ← isFirst, here]
      · rw [if_neg here]
        have later : find rest clientNai = some client := by simpa [find, here] using found
        simpa [find, here] using ih later

theorem removeClientRoute_listed (listed : mag ∈ listedMags clients clientNai) :
    ∃ next, removeClientRoute clients clientNai mag = .ok next ∧
      listedMags next clientNai = remainingMags clients clientNai mag := by
  simp only [removeClientRoute, remainingMags]
  cases found : find clients clientNai with
  | none =>
      rw [listedMags, found] at listed
      cases listed
  | some client =>
      have mags : listedMags clients clientNai = client.mags := by rw [listedMags, found]; rfl
      rw [mags] at listed ⊢
      simp only [listed, if_true]
      by_cases last : client.mags.erase mag = []
      · rw [if_pos last, if_pos last]
        exact ⟨_, rfl, rfl⟩
      · rw [if_neg last, if_neg last]
        exact ⟨_, rfl, by rw [listedMags, find_setMags found]; rfl⟩

theorem removeClientRoute_unlisted (unlisted : mag ∉ listedMags clients clientNai) :
    removeClientRoute clients clientNai mag = .error .nullRoute := by
  simp only [removeClientRoute]
  cases found : find clients clientNai with
  | none => rfl
  | some client =>
      have mags : listedMags clients clientNai = client.mags := by rw [listedMags, found]; rfl
      rw [mags] at unlisted
      exact if_neg unlisted

theorem WellFormed.remainingMags (ok : WellFormed clients) :
    remainingMags clients clientNai mag = (listedMags clients clientNai).erase mag := by
  simp only [ClientRoutes.remainingMags]
  split
  · rename_i last
    rw [last]
    cases found : find (clients.eraseP fun other => other.clientNai = clientNai) clientNai with
    | none => rw [listedMags, found]; rfl
    | some other =>
        obtain ⟨member, same⟩ := find_some found
        cases before : find clients clientNai with
        | none => exact absurd same (find_none before other (List.mem_of_mem_eraseP member))
        | some client =>
            obtain ⟨listed, isNai⟩ := find_some before
            rw [← isNai] at member same
            exact absurd same ((ok.mem_eraseP other).mp member).2
  · rfl

end Listed

end ClientRoutes

namespace FlowMob

open ClientRoutes (listedMags remainingMags)

/-- The MAG at which the walk of `get_flow_fwmark` stops. -/
def chosenMag (mags : List In6Addr) (rand : Nat) : Option In6Addr :=
  if rand % 20 < 10 then mags.head? else mags.getLast?

def MarkOfMag (marks : List (In6Addr × UInt32)) (clients : List ClientRoute) (mnNai : Nai)
    (mark : UInt32) : Prop :=
  ∃ mag ∈ listedMags clients mnNai, mark = getMagMark marks mag

instance (marks : List (In6Addr × UInt32)) (clients : List ClientRoute) (mnNai : Nai)
    (mark : UInt32) : Decidable (MarkOfMag marks clients mnNai mark) :=
  inferInstanceAs (Decidable (∃ mag ∈ listedMags clients mnNai, mark = getMagMark marks mag))

section Drawn
variable {marks : List (In6Addr × UInt32)} {clients : List ClientRoute} {mnNai : Nai} {rand : Nat}

theorem pickMark_eq (mags : List In6Addr) (mark : UInt32) :
    pickMark marks (rand % 20) mark mags =
      ((chosenMag mags rand).map (getMagMark marks)).getD mark := by
  induction mags generalizing mark with
  | nil =>
      rw [pickMark, chosenMag]
      split <;> rfl
  | cons mag rest ih =>
      rw [pickMark, ih]
      by_cases first : rand % 20 < 10
      · simp [chosenMag, first]
      · rw [if_neg first, chosenMag, if_neg first, chosenMag, if_neg first, List.getLast?_cons]
        exact Option.getD_map (getMagMark marks) mag rest.getLast?

theorem getFlowFwmark_eq : getFlowFwmark marks clients mnNai rand =
    ((chosenMag (listedMags clients mnNai) rand).map (getMagMark marks)).getD 0 := by
  simp only [getFlowFwmark, listedMags]
  cases ClientRoutes.find clients mnNai with
  | none =>
      simp only [chosenMag]
      split
      · rfl
      · rfl
  | some client => exact pickMark_eq client.mags 0

theorem chosenMag_mem {mags : List In6Addr} {mag : In6Addr}
    (chosen : chosenMag mags rand = some mag) :
    mag ∈ mags := by
  simp only [chosenMag] at chosen
  split at chosen
  · exact List.mem_of_head? chosen
  · exact List.mem_of_getLast? chosen

theorem getFlowFwmark_ne_zero : getFlowFwmark marks clients mnNai rand ≠ 0 ↔
    ∃ mag, chosenMag (listedMags clients mnNai) rand = some mag ∧ getMagMark marks mag ≠ 0 := by
  rw [getFlowFwmark_eq]
  cases chosenMag (listedMags clients mnNai) rand with
  | none => simp
  | some mag => simp

theorem getFlowFwmark_chosen {mag : In6Addr}
    (chosen : chosenMag (listedMags clients mnNai) rand = some mag) :
    getFlowFwmark marks clients mnNai rand = getMagMark marks mag := by
  rw [getFlowFwmark_eq, chosen]
  rfl

theorem getFlowFwmark_listed (path : getFlowFwmark marks clients mnNai rand ≠ 0) :
    MarkOfMag marks clients mnNai (getFlowFwmark marks clients mnNai rand) := by
  obtain ⟨mag, chosen, _⟩ := getFlowFwmark_ne_zero.mp path
  exact ⟨mag, chosenMag_mem chosen, getFlowFwmark_chosen chosen⟩

end Drawn

/-! ## Links that go down and come up -/

/-- What the link's going down should come to: the flows of the client are moved
to a MAG that is left, or dropped when none is, and the others stay. -/
structure Rescheduled (marks : List (In6Addr × UInt32)) (clients : List ClientRoute) (mnNai : Nai)
    (s s' : FlowMob) : Prop where
  moved : ∀ fce ∈ s.flows, (s.heap fce).clientNai = mnNai →
    (fce ∈ s'.flows ∧ MarkOfMag marks clients mnNai (s'.heap fce).mark) ∨
      (fce ∉ s'.flows ∧ listedMags clients mnNai = [])
  others : ∀ fce ∈ s.flows, (s.heap fce).clientNai ≠ mnNai →
    fce ∈ s'.flows ∧ s'.heap fce = s.heap fce

/-- `remove_client_route` and then `flowScheduler_link_down`. -/
def Completes (marks : List (In6Addr × UInt32)) (d : Daemon) (mnNai : Nai) (mag : In6Addr)
    (rand : Nat → Nat) (stray : Nat → Bool) (s : FlowMob) : Prop :=
  ∃ d', d.removeClientRoute mnNai mag = .ok d' ∧
    Rescheduled marks d'.clients mnNai s (s.flowSchedulerLinkDown marks d' mnNai rand stray)

/-- No flow of another client in front of the flow leaves a result that ends the
walk. -/
def Unblocked (mnNai : Nai) (stray : Nat → Bool) (s : FlowMob) (walk : List Nat) (fce : Nat) :
    Prop :=
  ∃ ahead behind, walk = ahead ++ fce :: behind ∧
    ∀ other ∈ ahead, (s.heap other).clientNai ≠ mnNai → stray other = false

/-- Every flow of the client that the walk comes to has a path, if there is a MAG
left, and every other one is where it may be. -/
structure Reaches (marks : List (In6Addr × UInt32)) (left : List In6Addr) (mnNai : Nai)
    (rand : Nat → Nat) (stray : Nat → Bool) (s : FlowMob) : Prop where
  reached : ∀ fce, (s.heap fce).clientNai = mnNai → Unblocked mnNai stray s s.flows fce →
    left = [] ∨ ∃ mag, chosenMag left (rand fce) = some mag ∧ getMagMark marks mag ≠ 0
  missed : ∀ fce ∈ s.flows, (s.heap fce).clientNai = mnNai →
    ¬ Unblocked mnNai stray s s.flows fce → ∃ mag ∈ left, (s.heap fce).mark = getMagMark marks mag

section LinkDown
variable {marks : List (In6Addr × UInt32)} {d : Daemon} {mnNai : Nai} {mag : In6Addr}
  {rand : Nat → Nat} {stray : Nat → Bool} {s : FlowMob}

theorem mem_rescheduled (walk : List Nat) (fce : Nat) : fce ∈ rescheduled mnNai stray s walk ↔
    (s.heap fce).clientNai = mnNai ∧ Unblocked mnNai stray s walk fce := by
  induction walk with
  | nil =>
      constructor
      · intro member
        cases member
      · intro given
        obtain ⟨_, ahead, behind, split, _⟩ := given
        cases ahead with
        | nil => cases split
        | cons first ahead => cases split
  | cons first rest ih =>
      simp only [rescheduled]
      by_cases foreign : (s.heap first).clientNai ≠ mnNai
      · rw [if_pos foreign]
        constructor
        · intro member
          by_cases ends : stray first = true
          · rw [if_pos ends] at member
            cases member
          · rw [if_neg ends] at member
            obtain ⟨client, ahead, behind, split, passed⟩ := ih.mp member
            refine ⟨client, first :: ahead, behind, by rw [split]; rfl, fun other isAhead => ?_⟩
            rcases List.mem_cons.mp isAhead with rfl | later
            · exact fun _ => by simpa using ends
            · exact passed other later
        · intro given
          obtain ⟨client, ahead, behind, split, passed⟩ := given
          cases ahead with
          | nil =>
              cases split
              exact absurd client foreign
          | cons other ahead =>
              cases split
              have goes : ¬ stray first = true := by
                rw [passed first List.mem_cons_self foreign]
                exact Bool.false_ne_true
              rw [if_neg goes]
              exact ih.mpr ⟨client, ahead, behind, rfl, fun other isAhead =>
                passed other (List.mem_cons_of_mem first isAhead)⟩
      · rw [if_neg foreign, List.mem_cons, ih]
        constructor
        · intro given
          rcases given with rfl | ⟨client, ahead, behind, split, passed⟩
          · exact ⟨not_not.mp foreign, [], rest, rfl, fun other isAhead => by cases isAhead⟩
          · refine ⟨client, first :: ahead, behind, by rw [split]; rfl, fun other isAhead => ?_⟩
            rcases List.mem_cons.mp isAhead with rfl | later
            · exact fun differs => absurd differs foreign
            · exact passed other later
        · intro given
          obtain ⟨client, ahead, behind, split, passed⟩ := given
          cases ahead with
          | nil =>
              cases split
              exact Or.inl rfl
          | cons other ahead =>
              cases split
              exact Or.inr ⟨client, ahead, behind, rfl, fun other isAhead =>
                passed other (List.mem_cons_of_mem first isAhead)⟩

theorem removeClientRoute_ok {d' : Daemon} (removed : d.removeClientRoute mnNai mag = .ok d') :
    mag ∈ listedMags d.clients mnNai ∧
      listedMags d'.clients mnNai = remainingMags d.clients mnNai mag := by
  simp only [Daemon.removeClientRoute] at removed
  by_cases listed : mag ∈ listedMags d.clients mnNai
  · obtain ⟨next, found, left⟩ := ClientRoutes.removeClientRoute_listed listed
    rw [found] at removed
    cases removed
    exact ⟨listed, left⟩
  · rw [ClientRoutes.removeClientRoute_unlisted listed] at removed
    cases removed

theorem linkDown_client (ok : FlowsOk s) {fce : Nat} (isFlow : fce ∈ s.flows)
    (client : (s.heap fce).clientNai = mnNai) :
    (Unblocked mnNai stray s s.flows fce →
      (fce ∈ (s.flowSchedulerLinkDown marks d mnNai rand stray).flows ↔
          nextPath marks d mnNai rand fce ≠ 0) ∧
        (nextPath marks d mnNai rand fce ≠ 0 →
          ((s.flowSchedulerLinkDown marks d mnNai rand stray).heap fce).mark =
            nextPath marks d mnNai rand fce)) ∧
      (¬ Unblocked mnNai stray s s.flows fce →
        fce ∈ (s.flowSchedulerLinkDown marks d mnNai rand stray).flows ∧
          (s.flowSchedulerLinkDown marks d mnNai rand stray).heap fce = s.heap fce) := by
  have handled := linkDown_handled marks d mnNai rand stray ok
  constructor
  · intro unblocked
    have walked : fce ∈ reachedFlows mnNai stray s :=
      (mem_rescheduled s.flows fce).mpr ⟨client, unblocked⟩
    rw [handled.flows, handled.heap]
    constructor
    · simp [isFlow, walked, pathless]
    · intro path
      simp [walked, pathless, path]
  · intro blocked
    have left : fce ∉ reachedFlows mnNai stray s := fun walked =>
      blocked ((mem_rescheduled s.flows fce).mp walked).2
    exact ⟨(handled.flows fce).mpr ⟨isFlow, fun both => left both.1⟩, handled.untouched left⟩

theorem linkDown_foreign (ok : FlowsOk s) {fce : Nat} (isFlow : fce ∈ s.flows)
    (foreign : (s.heap fce).clientNai ≠ mnNai) :
    fce ∈ (s.flowSchedulerLinkDown marks d mnNai rand stray).flows ∧
      (s.flowSchedulerLinkDown marks d mnNai rand stray).heap fce = s.heap fce := by
  have handled := linkDown_handled marks d mnNai rand stray ok
  have left : fce ∉ reachedFlows mnNai stray s := fun walked =>
    foreign ((mem_rescheduled s.flows fce).mp walked).1
  exact ⟨(handled.flows fce).mpr ⟨isFlow, fun both => left both.1⟩, handled.untouched left⟩

theorem linkDown_rescheduled_iff (ok : FlowsOk s) :
    Rescheduled marks d.clients mnNai s (s.flowSchedulerLinkDown marks d mnNai rand stray) ↔
      Reaches marks (listedMags d.clients mnNai) mnNai rand stray s := by
  constructor
  · intro rescheduled
    constructor
    · intro fce client unblocked
      have isFlow : fce ∈ s.flows := by
        obtain ⟨ahead, behind, split, _⟩ := unblocked
        rw [split]
        simp
      obtain ⟨kept, _⟩ := (linkDown_client ok isFlow client).1 unblocked
      rcases rescheduled.moved fce isFlow client with ⟨present, _⟩ | ⟨_, none⟩
      · exact Or.inr (getFlowFwmark_ne_zero.mp (kept.mp present))
      · exact Or.inl none
    · intro fce isFlow client blocked
      obtain ⟨present, same⟩ := (linkDown_client ok isFlow client).2 blocked
      rcases rescheduled.moved fce isFlow client with ⟨_, marked⟩ | ⟨dropped, _⟩
      · rw [same] at marked
        exact marked
      · exact absurd present dropped
  · intro reaches
    refine ⟨fun fce isFlow client => ?_, fun fce isFlow => linkDown_foreign ok isFlow⟩
    by_cases unblocked : Unblocked mnNai stray s s.flows fce
    · obtain ⟨kept, marked⟩ := (linkDown_client ok isFlow client).1 unblocked
      rcases reaches.reached fce client unblocked with none | path
      · have pathless : nextPath marks d mnNai rand fce = 0 := by
          by_contra path
          obtain ⟨mag, member, _⟩ := getFlowFwmark_listed path
          rw [none] at member
          cases member
        exact Or.inr ⟨fun present => kept.mp present pathless, none⟩
      · have path : nextPath marks d mnNai rand fce ≠ 0 := getFlowFwmark_ne_zero.mpr path
        refine Or.inl ⟨kept.mpr path, ?_⟩
        rw [marked path]
        exact getFlowFwmark_listed path
    · obtain ⟨present, same⟩ := (linkDown_client ok isFlow client).2 unblocked
      refine Or.inl ⟨present, ?_⟩
      rw [same]
      exact reaches.missed fce isFlow client unblocked

/-- The flows of a client are rescheduled exactly when the MAG is listed, the walk
comes to them and draws a MAG with a mark for each, unless they need not move. -/
theorem link_down_completes_iff (ok : FlowsOk s) :
    Completes marks d mnNai mag rand stray s ↔
      mag ∈ listedMags d.clients mnNai ∧
        Reaches marks (remainingMags d.clients mnNai mag) mnNai rand stray s := by
  constructor
  · intro completes
    obtain ⟨d', removed, rescheduled⟩ := completes
    obtain ⟨listed, remaining⟩ := removeClientRoute_ok removed
    rw [← remaining]
    exact ⟨listed, (linkDown_rescheduled_iff ok).mp rescheduled⟩
  · intro given
    obtain ⟨listed, reaches⟩ := given
    obtain ⟨next, found, remaining⟩ := ClientRoutes.removeClientRoute_listed listed
    have removed : d.removeClientRoute mnNai mag = .ok { d with clients := next } := by
      simp only [Daemon.removeClientRoute, found]
    rw [← remaining] at reaches
    exact ⟨_, removed, (linkDown_rescheduled_iff ok).mpr reaches⟩

end LinkDown

def firstMag : In6Addr := ⟨[0, 0, 0, 0, 0, 0, 0, 0, 0, 0, 0, 0, 0, 0, 0, 33], rfl⟩

def secondMag : In6Addr := ⟨[0, 0, 0, 0, 0, 0, 0, 0, 0, 0, 0, 0, 0, 0, 0, 34], rfl⟩

def twoMarks : List (In6Addr × UInt32) := [(firstMag, 1), (secondMag, 2)]

def flowTo (sourcePort : UInt16) : FlowKey where
  ip6Source := in6addrAny
  ip6Destination := in6addrLoopback
  transportProtocol := 17
  transportSourcePort := sourcePort
  transportDestinationPort := 2000
  trafficClass := 0
  flowLabel := 0

def oneFlow : FlowMob := init.flowmobCacheAdd ⟨0, Octets.zero 63, 1, flowTo 1000⟩ true

/-- A flow of a client without a route, and then one of `flowClient`. -/
def twoFlows : FlowMob := oneFlow.flowmobCacheAdd ⟨1, flowClient, 1, flowTo 1001⟩ true

theorem oneFlow_ok : FlowsOk oneFlow := by
  have missing : init.flowmobCacheGet (flowTo 1000) = none := by decide +kernel
  exact (flowsOk_init.added missing true).1

theorem twoFlows_ok : FlowsOk twoFlows := by
  have missing : oneFlow.flowmobCacheGet (flowTo 1001) = none := by decide +kernel
  exact (oneFlow_ok.added missing true).1

theorem twoFlows_flows : twoFlows.flows = [0, 1] := by decide +kernel

/-- The client leaves the first of its MAGs, and the walk gets to its flow. -/
theorem link_down_completes_iff_moved :
    Completes twoMarks (servedBy [firstMag, secondMag]) flowClient firstMag (fun _ => 0)
      (fun _ => false) twoFlows := by
  have left : remainingMags (servedBy [firstMag, secondMag]).clients flowClient firstMag =
      [secondMag] := by decide +kernel
  refine (link_down_completes_iff twoFlows_ok).mpr ⟨by decide +kernel, ?_, ?_⟩
  · intro fce _ _
    rw [left]
    exact Or.inr ⟨secondMag, rfl, by decide +kernel⟩
  · intro fce isFlow client blocked
    obtain ⟨ahead, behind, split⟩ := List.append_of_mem isFlow
    exact absurd ⟨ahead, behind, split, fun _ _ _ => rfl⟩ blocked

/-- The result for the other client's flow ends the walk, or no mark is
configured for the MAG that is left. -/
theorem link_down_incomplete :
    ¬ Completes twoMarks (servedBy [firstMag, secondMag]) flowClient firstMag (fun _ => 0)
        (fun _ => true) twoFlows ∧
      ¬ Completes [(firstMag, 1)] (servedBy [firstMag, secondMag]) flowClient firstMag
        (fun _ => 0) (fun _ => false) twoFlows := by
  constructor
  · intro completes
    obtain ⟨d', removed, rescheduled⟩ := completes
    cases removed
    rcases rescheduled.moved 1 (by decide +kernel) (by decide +kernel) with ⟨_, marked⟩ | ⟨_, none⟩
    · revert marked
      decide +kernel
    · revert none
      decide +kernel
  · intro completes
    obtain ⟨d', removed, rescheduled⟩ := completes
    cases removed
    rcases rescheduled.moved 1 (by decide +kernel) (by decide +kernel) with ⟨present, _⟩ | ⟨_, none⟩
    · revert present
      decide +kernel
    · revert none
      decide +kernel

/-- What the link's coming up may do: the marks of the client's flows change, to
marks of its MAGs, and nothing else. -/
structure UpFrame (marks : List (In6Addr × UInt32)) (clients : List ClientRoute) (mnNai : Nai)
    (s s' : FlowMob) : Prop where
  foreign : ∀ fce ∈ s.flows, (s.heap fce).clientNai ≠ mnNai →
    (s'.heap fce).mark = (s.heap fce).mark
  flows : s'.flows = s.flows ∧ s'.key = s.key
  marked : ∀ fce ∈ s'.flows, (s'.heap fce).mark ≠ 0 ∧
    MarkOfMag marks clients (s'.heap fce).clientNai (s'.heap fce).mark

/-- Every flow, of whatever client, has a path, which is that of before for the
flows of the other clients. -/
def Settled (marks : List (In6Addr × UInt32)) (clients : List ClientRoute) (mnNai : Nai)
    (rand : Nat → Nat) (s : FlowMob) : Prop :=
  ∀ fce ∈ s.flows, ∃ mag,
    chosenMag (listedMags clients (s.heap fce).clientNai) (rand fce) = some mag ∧
      getMagMark marks mag ≠ 0 ∧
      ((s.heap fce).clientNai ≠ mnNai → getMagMark marks mag = (s.heap fce).mark)

section LinkUp
variable {marks : List (In6Addr × UInt32)} {d : Daemon} {mnNai : Nai} {rand : Nat → Nat}
  {s : FlowMob}

theorem handle_kept_hash (path : Nat → UInt32)
    (rerule : List Rule → FlowEntry → UInt32 → List Rule) (walk : List Nat) :
    (walk.foldl (handle path (fun _ => false) rerule) s).hash = s.hash := by
  induction walk generalizing s with
  | nil => rfl
  | cons fce rest ih => exact ih

theorem linkUp_flows : (s.flowSchedulerLinkUp marks d rand).flows = s.flows := by
  rw [flowSchedulerLinkUp, iterate_newPath _ fun _ => rfl]
  exact congrArg toList (handle_kept_hash _ _ _)

theorem linkUp_heap (ok : FlowsOk s) {fce : Nat} (isFlow : fce ∈ s.flows) :
    (s.flowSchedulerLinkUp marks d rand).heap fce =
      { s.heap fce with mark := newPath marks d rand s fce } := by
  rw [(linkUp_handled marks d rand ok).heap, if_pos ⟨isFlow, rfl⟩]

/-- The frame holds exactly when the flows of all clients are settled. -/
theorem link_up_frame_iff (ok : FlowsOk s) :
    UpFrame marks d.clients mnNai s (s.flowSchedulerLinkUp marks d rand) ↔
      Settled marks d.clients mnNai rand s := by
  constructor
  · intro frame fce isFlow
    have present : fce ∈ (s.flowSchedulerLinkUp marks d rand).flows := by
      rw [linkUp_flows]
      exact isFlow
    obtain ⟨path, _⟩ := frame.marked fce present
    have same := frame.foreign fce isFlow
    rw [linkUp_heap ok isFlow] at path same
    obtain ⟨mag, chosen, marked⟩ := getFlowFwmark_ne_zero.mp path
    refine ⟨mag, chosen, marked, fun foreign => ?_⟩
    rw [← same foreign]
    exact (getFlowFwmark_chosen chosen).symm
  · intro settled
    refine ⟨fun fce isFlow foreign => ?_, ⟨linkUp_flows, (linkUp_handled marks d rand ok).key⟩,
      fun fce present => ?_⟩
    · obtain ⟨mag, chosen, _, stays⟩ := settled fce isFlow
      rw [linkUp_heap ok isFlow, ← stays foreign]
      exact getFlowFwmark_chosen chosen
    · rw [linkUp_flows] at present
      obtain ⟨mag, chosen, marked, _⟩ := settled fce present
      have path : newPath marks d rand s fce ≠ 0 := getFlowFwmark_ne_zero.mpr ⟨mag, chosen, marked⟩
      rw [linkUp_heap ok present]
      exact ⟨path, getFlowFwmark_listed path⟩

end LinkUp

/-- The client of the second flow moves, and the other stays where it is. -/
theorem link_up_frame_iff_settled :
    let d := { servedBy [secondMag] with
      clients := [⟨Octets.zero 63, [firstMag]⟩, ⟨flowClient, [secondMag]⟩] }
    UpFrame twoMarks d.clients flowClient twoFlows
      (twoFlows.flowSchedulerLinkUp twoMarks d fun _ => 0) := by
  intro d
  refine (link_up_frame_iff twoFlows_ok).mpr fun fce isFlow => ?_
  rw [twoFlows_flows] at isFlow
  rcases List.mem_cons.mp isFlow with rfl | isSecond
  · exact ⟨firstMag, by decide +kernel, by decide +kernel, fun _ => by decide +kernel⟩
  · obtain rfl := List.mem_singleton.mp isSecond
    exact ⟨secondMag, by decide +kernel, by decide +kernel,
      fun foreign => absurd (by decide +kernel) foreign⟩

/-- The flow of a client that has no route is left with the mark zero. -/
theorem link_up_disturbs :
    ¬ UpFrame twoMarks (servedBy [firstMag, secondMag]).clients flowClient twoFlows
      (twoFlows.flowSchedulerLinkUp twoMarks (servedBy [firstMag, secondMag]) fun _ => 0) := by
  intro frame
  have same := frame.foreign 0 (by decide +kernel) (by decide +kernel)
  revert same
  decide +kernel

/-! ## The first packet of a flow -/

def Identifies (marks : List (In6Addr × UInt32)) (d : Daemon) (s : FlowMob) (k : FlowKey)
    (rand : Nat) (alloc node : Bool) : Prop :=
  ∀ s' mark, s.flowSchedulerScheduleFlow marks d k rand alloc node = .ok (s', mark) →
    (mark ≠ 0 ∨ s'.flows ≠ s.flows →
      ∃ bce ∈ d.entries, (d.heap bce).mnAddr = k.ip6Destination ∧
        (∀ fce ∈ s'.flows, fce ∉ s.flows →
          s'.heap fce = ⟨(d.heap bce).bid, (d.heap bce).mnNai, mark, k⟩) ∧
        MarkOfMag marks d.clients (d.heap bce).mnNai mark) ∧
    ((∀ bce ∈ d.entries, (d.heap bce).mnAddr ≠ k.ip6Destination) → mark = 0)

section Schedule
variable {marks : List (In6Addr × UInt32)} {d : Daemon} {s : FlowMob} {k : FlowKey} {rand : Nat}
  {alloc node : Bool}

theorem findNai_some {bce : Nat} (found : findNai d k.ip6Destination = some bce) :
    bce ∈ d.entries ∧ (d.heap bce).mnAddr = k.ip6Destination := by
  simp only [findNai] at found
  exact ⟨List.mem_of_find?_eq_some found, by simpa using List.find?_some found⟩

theorem findNai_none : findNai d k.ip6Destination = none ↔
    ∀ bce ∈ d.entries, (d.heap bce).mnAddr ≠ k.ip6Destination := by
  simp [findNai]

theorem flowmobCacheAdd_flows (entry : FlowEntry) {fce : Nat}
    (present : fce ∈ (s.flowmobCacheAdd entry node).flows) (new : fce ∉ s.flows) :
    fce = s.top := by
  simp only [flowmobCacheAdd, flows, tableAdd] at present
  split at present
  · split at present
    · exact absurd present new
    · have member := (toList_append_perm _ _ _).mem_iff.mp present
      exact (List.mem_cons.mp member).resolve_right new
  · exact absurd present new

theorem flowmobCacheAdd_heap (entry : FlowEntry) :
    (s.flowmobCacheAdd entry node).heap s.top = entry := by
  simp [flowmobCacheAdd]

theorem newMark_some {bce : Nat} (found : findNai d k.ip6Destination = some bce) :
    newMark marks d k rand = getFlowFwmark marks d.clients (d.heap bce).mnNai rand := by
  rw [newMark, newFlow, found]

theorem newMark_none (missing : findNai d k.ip6Destination = none) :
    newMark marks d k rand = getFlowFwmark marks d.clients (Octets.zero 63) rand := by
  rw [newMark, newFlow, missing]

theorem added_identified {bce : Nat} (found : findNai d k.ip6Destination = some bce)
    (path : newMark marks d k rand ≠ 0) :
    (∀ fce ∈ (s.flowmobCacheAdd (newFlow d k (newMark marks d k rand)) node).flows,
      fce ∉ s.flows →
        (s.flowmobCacheAdd (newFlow d k (newMark marks d k rand)) node).heap fce =
          ⟨(d.heap bce).bid, (d.heap bce).mnNai, newMark marks d k rand, k⟩) ∧
      MarkOfMag marks d.clients (d.heap bce).mnNai (newMark marks d k rand) := by
  constructor
  · intro fce present new
    rw [flowmobCacheAdd_flows _ present new, flowmobCacheAdd_heap, newFlow, found]
  · rw [newMark_some found] at path ⊢
    exact getFlowFwmark_listed path

/-- A packet is marked for a binding with its destination exactly when there is
one, or when it would not be marked anyway: its flow is cached, the client with
the identifier zero has no path, or there is no memory. -/
theorem flow_identified_iff : Identifies marks d s k rand alloc node ↔
    s.flowmobCacheGet k ≠ none ∨ (∃ bce ∈ d.entries, (d.heap bce).mnAddr = k.ip6Destination) ∨
      (∀ mag, chosenMag (listedMags d.clients (Octets.zero 63)) rand = some mag →
        getMagMark marks mag = 0) ∨ alloc = false := by
  constructor
  · intro identifies
    by_contra gap
    simp only [not_or, not_not, not_exists, not_and, not_forall] at gap
    obtain ⟨missing, unbound, ⟨mag, chosen, marked⟩, memory⟩ := gap
    have path : newMark marks d k rand ≠ 0 := by
      rw [newMark_none (findNai_none.mpr unbound)]
      exact getFlowFwmark_ne_zero.mpr ⟨mag, chosen, marked⟩
    rcases scheduleFlow_cases with ⟨closed, _⟩ | ⟨_, run⟩
    · exact closed ⟨missing, path⟩
    · rw [if_pos (by simpa using memory)] at run
      exact path ((identifies _ _ run).2 unbound)
  · intro safe s' mark run
    rcases scheduleFlow_cases with ⟨_, same⟩ | ⟨opens, next⟩
    · rw [same] at run
      cases run
      refine ⟨fun changed => ?_, fun _ => rfl⟩
      rcases changed with marked | grown
      · exact absurd rfl marked
      · exact absurd rfl grown
    · rw [next] at run
      cases alloc with
      | false => cases run
      | true =>
          cases run
          cases found : findNai d k.ip6Destination with
          | some bce =>
              obtain ⟨member, destination⟩ := findNai_some found
              exact ⟨fun _ => ⟨bce, member, destination, added_identified found opens.2⟩,
                fun unbound => absurd destination (unbound bce member)⟩
          | none =>
              have unbound := findNai_none.mp found
              have path := opens.2
              rw [newMark_none found] at path
              obtain ⟨mag, chosen, marked⟩ := getFlowFwmark_ne_zero.mp path
              rcases safe with isCached | ⟨bce, member, destination⟩ | pathless | noMemory
              · exact absurd opens.1 isCached
              · exact absurd destination (unbound bce member)
              · exact absurd (pathless mag chosen) marked
              · cases noMemory

end Schedule

/-- A client whose identifier is all zero is served by a MAG, and a packet to an
address of no binding is marked for it. -/
theorem flow_unidentified :
    let d := { servedBy [firstMag] with
      heap := fun _ =>
        { PmipEntry.blank .pmip with
          mnAddr := in6addrAny
          bid := 1 }
      clients := [⟨Octets.zero 63, [firstMag]⟩] }
    (∀ bce ∈ d.entries, (d.heap bce).mnAddr ≠ (flowTo 1000).ip6Destination) ∧
      ¬ Identifies twoMarks d init (flowTo 1000) 0 true true := by
  intro d
  have unbound : ∀ bce ∈ d.entries, (d.heap bce).mnAddr ≠ (flowTo 1000).ip6Destination := by
    decide +kernel
  refine ⟨unbound, fun identifies => ?_⟩
  have marked : newMark twoMarks d (flowTo 1000) 0 = 0 := (identifies _ _ rfl).2 unbound
  revert marked
  decide +kernel

end FlowMob

end OaiPmip
