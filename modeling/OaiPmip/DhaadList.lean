import Mathlib.Data.List.Sort
import OaiPmip.Lib.Runs
import OaiPmip.TQueue

/-!
# The home agents list, dhaad_ha.c

Router advertisements insert and update home agents; every entry is freed by its
own task.  The runner takes a task off the queue before it waits for the lock of
the list, so an update can come between the two and `dhaad_expire_halist` asks
`task_interrupted` first.
-/

set_option autoImplicit false

namespace OaiPmip.Dhaad

open OaiPmip.Runs OaiPmip.TQueue

/-- `struct home_agent`, with the address of its memory. -/
structure HomeAgent where
  node : Nat
  addr : In6Addr
  preference : UInt16
  flags : UInt16
  lifetime : Timespec
  deriving DecidableEq

/-- The runner has no task, has taken one off the queue, or is behind its end with
`curr` not yet cleared. -/
inductive Runner where
  | idle
  | waiting (node : Nat)
  | ran (node : Nat)
  deriving DecidableEq

/-- The list of an interface and the tasks of its entries; a task is known by the
memory that it lies in. -/
structure State where
  halist : List HomeAgent
  tqList : List Nat
  expires : Nat → Timespec
  curr : Option Nat
  runner : Runner

def State.init : State := ⟨[], [], fun _ => ⟨0, 0⟩, none, .idle⟩

def insertHa (ha : HomeAgent) (halist : List HomeAgent) : List HomeAgent :=
  halist.orderedInsert (fun ha tmp => ha.preference ≥ tmp.preference) ha

def addTaskRel (s : State) (now expiresIn : Timespec) (node : Nat) : State :=
  let expires := Function.update s.expires node (tsadd now expiresIn)
  let rest := if tsisset (s.expires node) then listDel s.tqList node else s.tqList
  { s with
    tqList := sortedInsert expires node rest
    expires := expires
    curr := if s.curr = some node then none else s.curr }

/-- `memset` on a new entry. -/
def clearTask (s : State) (node : Nat) : State :=
  { s with expires := Function.update s.expires node ⟨0, 0⟩ }

/-- `dhaad_insert_halist`; `node` is what `malloc` returns when it is called. -/
def dhaadInsertHalist (s : State) (key lifeSec flags : UInt16) (addr : In6Addr) (node : Nat)
    (now : Timespec) : State :=
  let lifetime : Timespec := ⟨lifeSec.toNat, 0⟩
  match s.halist.find? fun tmp => tmp.addr = addr with
  | some ha =>
      let rest := s.halist.eraseP fun tmp => tmp.addr = addr
      let halist := insertHa { ha with preference := key, lifetime := lifetime } rest
      addTaskRel { s with halist := halist } now lifetime ha.node
  | none =>
      let halist := insertHa ⟨node, addr, key, flags, lifetime⟩ s.halist
      addTaskRel { clearTask s node with halist := halist } now lifetime node

def pick (s : State) (now : Timespec) : State :=
  match s.tqList with
  | [] => s
  | first :: _ =>
      if tsbefore (s.expires first) now then s
      else
        { s with
          tqList := listDel s.tqList first
          expires := Function.update s.expires first ⟨0, 0⟩
          curr := some first
          runner := .waiting first }

/-- `dhaad_expire_halist`, with the lock. -/
def dhaadExpireHalist (s : State) (node : Nat) : State :=
  if s.curr.isNone then { s with runner := .ran node }
  else
    let halist := s.halist.filter fun ha => ha.node ≠ node
    { s with halist := halist, runner := .ran node }

inductive Input where
  | insert (key lifeSec flags : UInt16) (addr : In6Addr) (node : Nat) (now : Timespec)
  | pick (now : Timespec)
  | expire
  | release

def step (s : State) : Input → Except Empty State
  | .insert key lifeSec flags addr node now =>
      .ok (dhaadInsertHalist s key lifeSec flags addr node now)
  | .pick now =>
      match s.runner with
      | .idle => .ok (pick s now)
      | _ => .ok s
  | .expire =>
      match s.runner with
      | .waiting node => .ok (dhaadExpireHalist s node)
      | _ => .ok s
  | .release =>
      match s.runner with
      | .ran _ => .ok { s with curr := none, runner := .idle }
      | _ => .ok s

/-- `malloc` returns memory that no entry lies in, and the clock is past the epoch. -/
def Admissible (s : State) : Input → Prop
  | .insert _ _ _ _ node now => 0 < now.tvSec ∧ ∀ ha ∈ s.halist, ha.node ≠ node
  | .pick _ => True
  | .expire => True
  | .release => True

inductive Overflow where
  | iov
  deriving DecidableEq

def maxHomeAgents : Nat := 77

/-- `MIP_DHREQ_FLAG_SUPPORT_MR` and `ND_OPT_HAI_FLAG_SUPPORT_MR`, as a little-endian
host loads them. -/
def flagSupportMr : UInt16 := 0x0080

/-- The test of `dhaad_get_halist` on an entry. -/
def matchesFlags (flags : UInt16) (h : HomeAgent) : Bool :=
  flags &&& flagSupportMr = 0 || h.flags &&& flagSupportMr ≠ 0

/-- The loop of `dhaad_get_halist` with the number of entries written so far. -/
def getHalistFrom (flags : UInt16) (max : Nat) :
    List HomeAgent → Nat → List (Option In6Addr) →
      Except Overflow (Nat × List (Option In6Addr))
  | [], n, iov => .ok (n, iov)
  | h :: rest, n, iov =>
      if matchesFlags flags h then
        if n + 1 < iov.length then
          if n + 1 ≥ max then .ok (n + 1, iov.set (n + 1) (some h.addr))
          else getHalistFrom flags max rest (n + 1) (iov.set (n + 1) (some h.addr))
        else .error .iov
      else getHalistFrom flags max rest n iov

/-- In the array of `dhaad_recv_req`, whose first entry is the header. -/
def dhaadGetHalist (s : State) (flags : UInt16) : Except Overflow (Nat × List (Option In6Addr)) :=
  getHalistFrom flags maxHomeAgents s.halist 0 (List.replicate (maxHomeAgents + 1) none)

/-- The addresses of the reply; no reply is sent to a short request, for another
anycast address or without memory. -/
def dhaadRecvReq (s : State) (len : Int) (isAnycast created : Bool) (flags : UInt16) :
    Except Overflow (Option (List In6Addr)) :=
  if len < 8 ∨ !isAnycast ∨ !created then .ok none
  else
    match dhaadGetHalist s flags with
    | .ok (iovlen, iov) => .ok (some (((iov.drop 1).take iovlen).filterMap id))
    | .error fault => .error fault

/-! ## What every step keeps -/

def Firing (s : State) (node : Nat) : Prop := s.runner = .waiting node ∧ s.curr = some node

structure Ok (s : State) : Prop where
  sorted : s.halist.Pairwise fun first second => first.preference ≥ second.preference
  addrs : (s.halist.map HomeAgent.addr).Nodup
  nodes : (s.halist.map HomeAgent.node).Nodup
  queue : s.tqList.Nodup
  timed : ∀ n ∈ s.tqList, tsisset (s.expires n) = true
  listed : ∀ n ∈ s.tqList, ∃ ha ∈ s.halist, ha.node = n
  armed : ∀ ha ∈ s.halist, ha.node ∈ s.tqList ∨ Firing s ha.node
  exclusive : ∀ n, Firing s n → n ∉ s.tqList
  current : ∀ n, s.curr = some n → s.runner = .waiting n ∨ s.runner = .ran n

theorem ok_init : Ok State.init where
  sorted := List.Pairwise.nil
  addrs := List.nodup_nil
  nodes := List.nodup_nil
  queue := List.nodup_nil
  timed := fun _ none_ => absurd none_ List.not_mem_nil
  listed := fun _ none_ => absurd none_ List.not_mem_nil
  armed := fun _ none_ => absurd none_ List.not_mem_nil
  exclusive := fun _ _ => List.not_mem_nil
  current := fun _ none_ => nomatch none_

def advertises (addr : In6Addr) : Input → Option UInt16
  | .insert key _ _ other _ _ => if other = addr then some key else none
  | _ => none

inductive Taken (s : State) : Input → State → Prop
  | insert (key lifeSec flags : UInt16) (addr : In6Addr) (node : Nat) (now : Timespec) :
      Taken s (.insert key lifeSec flags addr node now)
        (dhaadInsertHalist s key lifeSec flags addr node now)
  | pick (now : Timespec) (idle : s.runner = .idle) : Taken s (.pick now) (Dhaad.pick s now)
  | expire {node : Nat} (waits : s.runner = .waiting node) :
      Taken s .expire (dhaadExpireHalist s node)
  | release {node : Nat} (ended : s.runner = .ran node) :
      Taken s .release { s with curr := none, runner := .idle }
  | stays {input : Input} (silent : ∀ addr, advertises addr input = none) : Taken s input s

theorem step_taken {s next : State} {input : Input} (taken : step s input = .ok next) :
    Taken s input next := by
  cases input with
  | insert key lifeSec flags addr node now =>
      cases taken
      exact .insert key lifeSec flags addr node now
  | pick now =>
      simp only [step] at taken
      split at taken
      · rename_i idle
        cases taken
        exact .pick now idle
      · cases taken
        exact .stays fun _ => rfl
  | expire =>
      simp only [step] at taken
      split at taken
      · rename_i node waits
        cases taken
        exact .expire waits
      · cases taken
        exact .stays fun _ => rfl
  | release =>
      simp only [step] at taken
      split at taken
      · rename_i node ended
        cases taken
        exact .release ended
      · cases taken
        exact .stays fun _ => rfl

section Queue
variable {s : State} {now lft : Timespec} {node : Nat}

theorem addTaskRel_mem (other : Nat) :
    other ∈ (addTaskRel s now lft node).tqList ↔ other = node ∨ other ∈ s.tqList := by
  simp only [addTaskRel]
  rw [mem_sortedInsert]
  by_cases new : other = node
  · simp [new]
  · split
    · simp [new]
    · simp [new]

theorem addTaskRel_nodup (queue : s.tqList.Nodup)
    (timed : ∀ n ∈ s.tqList, tsisset (s.expires n) = true) :
    (addTaskRel s now lft node).tqList.Nodup := by
  simp only [addTaskRel]
  rw [(sortedInsert_perm _ _ _).nodup_iff]
  by_cases set : tsisset (s.expires node) = true
  · rw [if_pos set]
    exact List.nodup_cons.mpr ⟨by simp, queue.filter _⟩
  · rw [if_neg set]
    exact List.nodup_cons.mpr ⟨fun queued => set (timed node queued), queue⟩

theorem addTaskRel_timed (epoch : 0 < now.tvSec) (forward : 0 ≤ lft.tvSec)
    (timed : ∀ n ∈ s.tqList, tsisset (s.expires n) = true) :
    ∀ n ∈ (addTaskRel s now lft node).tqList,
      tsisset ((addTaskRel s now lft node).expires n) = true := by
  intro n queued
  by_cases new : n = node
  · subst new
    simp only [addTaskRel, Function.update_self]
    exact tsisset_tsadd epoch forward
  · simp only [addTaskRel, Function.update_of_ne new]
    exact timed n (((addTaskRel_mem n).mp queued).resolve_left new)

theorem addTaskRel_firing (n : Nat) :
    Firing (addTaskRel s now lft node) n ↔ Firing s n ∧ n ≠ node := by
  simp only [Firing, addTaskRel]
  by_cases interrupted : s.curr = some node
  · rw [if_pos interrupted, interrupted]
    constructor
    · intro firing
      cases firing.2
    · intro firing
      exact absurd (Option.some.inj firing.1.2).symm firing.2
  · rw [if_neg interrupted]
    constructor
    · intro firing
      refine ⟨firing, ?_⟩
      intro same
      subst same
      exact interrupted firing.2
    · exact fun firing => firing.1

end Queue

section Lists
variable {halist : List HomeAgent}

theorem insertHa_perm (ha : HomeAgent) : (insertHa ha halist).Perm (ha :: halist) :=
  List.perm_orderedInsert _ ha halist

theorem insertHa_sorted (ha : HomeAgent)
    (sorted : halist.Pairwise fun first second => first.preference ≥ second.preference) :
    (insertHa ha halist).Pairwise fun first second => first.preference ≥ second.preference := by
  have total : Std.Total fun first second : HomeAgent => first.preference ≥ second.preference :=
    ⟨fun first second => UInt16.le_total second.preference first.preference⟩
  have trans : IsTrans HomeAgent fun first second => first.preference ≥ second.preference :=
    ⟨fun _ _ _ first second => UInt16.le_trans second first⟩
  exact List.Pairwise.orderedInsert ha halist sorted

theorem find_eraseP {p : HomeAgent → Bool} {ha : HomeAgent} (found : halist.find? p = some ha) :
    halist.Perm (ha :: halist.eraseP p) := by
  induction halist with
  | nil => cases found
  | cons tmp rest ih =>
      by_cases here : p tmp = true
      · rw [List.find?_cons_of_pos here] at found
        cases found
        rw [List.eraseP_cons_of_pos here]
      · rw [List.find?_cons_of_neg here] at found
        rw [List.eraseP_cons_of_neg here]
        exact ((ih found).cons tmp).trans (List.Perm.swap ha tmp _)

end Lists

section Steps
variable {s : State}

/-- An entry is placed and its task is queued; `rest` is the list without it. -/
theorem Ok.place (ok : Ok s) {now lft : Timespec} (epoch : 0 < now.tvSec)
    (forward : 0 ≤ lft.tvSec) {ha : HomeAgent} {rest : List HomeAgent}
    (fewer : rest.Sublist s.halist) (newAddr : ha.addr ∉ rest.map HomeAgent.addr)
    (newNode : ha.node ∉ rest.map HomeAgent.node)
    (others : ∀ old ∈ s.halist, old ∈ rest ∨ old.node = ha.node) :
    Ok (addTaskRel { s with halist := insertHa ha rest } now lft ha.node) where
  sorted := insertHa_sorted ha (ok.sorted.sublist fewer)
  addrs := by
    refine (((insertHa_perm ha).map HomeAgent.addr).nodup_iff).mpr ?_
    exact List.nodup_cons.mpr ⟨newAddr, ok.addrs.sublist (fewer.map _)⟩
  nodes := by
    refine (((insertHa_perm ha).map HomeAgent.node).nodup_iff).mpr ?_
    exact List.nodup_cons.mpr ⟨newNode, ok.nodes.sublist (fewer.map _)⟩
  queue := addTaskRel_nodup ok.queue ok.timed
  timed := addTaskRel_timed epoch forward ok.timed
  listed := by
    intro n queued
    have placed : ha ∈ insertHa ha rest := (insertHa_perm ha).mem_iff.mpr List.mem_cons_self
    rcases (addTaskRel_mem n).mp queued with rfl | before
    · exact ⟨ha, placed, rfl⟩
    · obtain ⟨old, member, rfl⟩ := ok.listed n before
      rcases others old member with inRest | same
      · exact ⟨old, (insertHa_perm ha).mem_iff.mpr (List.mem_cons_of_mem _ inRest), rfl⟩
      · exact ⟨ha, placed, same.symm⟩
  armed := by
    intro old member
    rw [addTaskRel_mem, addTaskRel_firing]
    rcases List.mem_cons.mp ((insertHa_perm ha).mem_iff.mp member) with rfl | inRest
    · exact .inl (.inl rfl)
    · have other : old.node ≠ ha.node := fun same =>
        newNode (List.mem_map.mpr ⟨old, inRest, same⟩)
      rcases ok.armed old (fewer.subset inRest) with queued | firing
      · exact .inl (.inr queued)
      · exact .inr ⟨firing, other⟩
  exclusive := by
    intro n firing queued
    obtain ⟨before, other⟩ := (addTaskRel_firing n).mp firing
    exact ok.exclusive n before (((addTaskRel_mem n).mp queued).resolve_left other)
  current := by
    intro n isCurrent
    simp only [addTaskRel] at isCurrent
    split at isCurrent
    · cases isCurrent
    · exact ok.current n isCurrent

theorem Ok.clearTask (ok : Ok s) {node : Nat} (unused : ∀ ha ∈ s.halist, ha.node ≠ node) :
    Ok (Dhaad.clearTask s node) where
  sorted := ok.sorted
  addrs := ok.addrs
  nodes := ok.nodes
  queue := ok.queue
  timed := by
    intro n queued
    obtain ⟨ha, member, rfl⟩ := ok.listed n queued
    simp only [Dhaad.clearTask, Function.update_of_ne (unused ha member)]
    exact ok.timed _ queued
  listed := ok.listed
  armed := ok.armed
  exclusive := ok.exclusive
  current := ok.current

theorem Ok.insert (ok : Ok s) (key lifeSec flags : UInt16) (addr : In6Addr) {node : Nat}
    {now : Timespec} (epoch : 0 < now.tvSec) (unused : ∀ ha ∈ s.halist, ha.node ≠ node) :
    Ok (dhaadInsertHalist s key lifeSec flags addr node now) := by
  have forward : 0 ≤ (⟨lifeSec.toNat, 0⟩ : Timespec).tvSec := Int.natCast_nonneg _
  simp only [dhaadInsertHalist]
  split
  · rename_i ha found
    have perm := find_eraseP found
    have isAddr : ha.addr = addr := by simpa using List.find?_some found
    have addrs := ((perm.map HomeAgent.addr).nodup_iff).mp ok.addrs
    have nodes := ((perm.map HomeAgent.node).nodup_iff).mp ok.nodes
    rw [List.map_cons, List.nodup_cons] at addrs nodes
    refine @Ok.place s ok now ⟨lifeSec.toNat, 0⟩ epoch forward
      { ha with preference := key, lifetime := ⟨lifeSec.toNat, 0⟩ } _ (List.eraseP_sublist)
      addrs.1 nodes.1 ?_
    intro old member
    rcases List.mem_cons.mp (perm.mem_iff.mp member) with rfl | inRest
    · exact .inr rfl
    · exact .inl inRest
  · rename_i missing
    refine @Ok.place _ (ok.clearTask unused) now ⟨lifeSec.toNat, 0⟩ epoch forward
      ⟨node, addr, key, flags, ⟨lifeSec.toNat, 0⟩⟩ s.halist (List.Sublist.refl _) ?_ ?_
      (fun old member => .inl member)
    · intro known
      obtain ⟨old, member, same⟩ := List.mem_map.mp known
      have other := List.find?_eq_none.mp missing old member
      exact other (by simpa using same)
    · intro known
      obtain ⟨old, member, same⟩ := List.mem_map.mp known
      exact unused old member same

theorem Ok.queued (ok : Ok s) (resting : ∀ n, s.runner ≠ .waiting n) :
    ∀ ha ∈ s.halist, ha.node ∈ s.tqList := by
  intro ha member
  exact (ok.armed ha member).resolve_right fun firing => resting ha.node firing.1

theorem Ok.pick (ok : Ok s) (idle : s.runner = .idle) (now : Timespec) :
    Ok (Dhaad.pick s now) := by
  have queued := ok.queued fun n waits => by rw [idle] at waits; cases waits
  simp only [Dhaad.pick]
  split
  · exact ok
  · rename_i first rest list
    split
    · exact ok
    · refine ⟨ok.sorted, ok.addrs, ok.nodes, ok.queue.filter _, ?_, ?_, ?_, ?_, ?_⟩
      · intro n stays
        obtain ⟨before, other⟩ := (mem_listDel _ _ _).mp stays
        simp only [Function.update_of_ne other]
        exact ok.timed n before
      · intro n stays
        exact ok.listed n ((mem_listDel _ _ _).mp stays).1
      · intro ha member
        by_cases isFirst : ha.node = first
        · exact .inr ⟨congrArg Runner.waiting isFirst.symm, congrArg some isFirst.symm⟩
        · exact .inl ((mem_listDel _ _ _).mpr ⟨queued ha member, isFirst⟩)
      · intro n firing stays
        obtain ⟨-, other⟩ := (mem_listDel _ _ _).mp stays
        exact other (Option.some.inj firing.2).symm
      · intro n isCurrent
        exact .inl (congrArg Runner.waiting (Option.some.inj isCurrent))

theorem Ok.expire (ok : Ok s) {node : Nat} (waits : s.runner = .waiting node) :
    Ok (dhaadExpireHalist s node) := by
  simp only [dhaadExpireHalist]
  split
  · rename_i interrupted
    have none_ : s.curr = none := by simpa using interrupted
    refine ⟨ok.sorted, ok.addrs, ok.nodes, ok.queue, ok.timed, ok.listed, ?_, ?_, ?_⟩
    · intro ha member
      refine .inl ((ok.armed ha member).resolve_right ?_)
      intro firing
      cases none_.symm.trans firing.2
    · intro n firing
      cases none_.symm.trans firing.2
    · intro n isCurrent
      cases none_.symm.trans isCurrent
  · rename_i runs
    have isCurrent : s.curr = some node := by
      obtain ⟨n, same⟩ := Option.ne_none_iff_exists'.mp (by simpa using runs)
      rcases ok.current n same with here | ended
      · rw [waits] at here
        cases here
        exact same
      · rw [waits] at ended
        cases ended
    have offQueue := ok.exclusive node ⟨waits, isCurrent⟩
    have fewer : (s.halist.filter fun ha => ha.node ≠ node).Sublist s.halist := List.filter_sublist
    refine ⟨ok.sorted.sublist fewer, ok.addrs.sublist (fewer.map _),
      ok.nodes.sublist (fewer.map _), ok.queue, ok.timed, ?_, ?_, ?_, ?_⟩
    · intro n queued
      obtain ⟨ha, member, rfl⟩ := ok.listed n queued
      have other : ha.node ≠ node := fun same => offQueue (same ▸ queued)
      exact ⟨ha, List.mem_filter.mpr ⟨member, by simpa using other⟩, rfl⟩
    · intro ha member
      obtain ⟨before, other⟩ := List.mem_filter.mp member
      refine .inl ((ok.armed ha before).resolve_right ?_)
      intro firing
      have same := waits.symm.trans firing.1
      cases same
      simp at other
    · intro n firing
      cases firing.1
    · intro n same
      exact .inr (congrArg Runner.ran (Option.some.inj (isCurrent.symm.trans same)))

theorem Ok.release (ok : Ok s) {node : Nat} (ended : s.runner = .ran node) :
    Ok { s with curr := none, runner := .idle } := by
  have queued := ok.queued fun n waits => by rw [ended] at waits; cases waits
  refine ⟨ok.sorted, ok.addrs, ok.nodes, ok.queue, ok.timed, ok.listed,
    fun ha member => .inl (queued ha member), ?_, ?_⟩
  · intro n firing
    cases firing.1
  · intro n none_
    cases none_

theorem Ok.step (ok : Ok s) {input : Input} (admissible : Admissible s input) {next : State}
    (taken : Dhaad.step s input = .ok next) : Ok next := by
  cases step_taken taken with
  | insert key lifeSec flags addr node now =>
      exact ok.insert key lifeSec flags addr admissible.1 admissible.2
  | pick now idle => exact ok.pick idle now
  | expire waits => exact ok.expire waits
  | release ended => exact ok.release ended
  | stays silent => exact ok

end Steps

/-! ## What was advertised and what is answered -/

def latest (addr : In6Addr) : List Input → Option UInt16
  | [] => none
  | input :: rest => (latest addr rest).or (advertises addr input)

section Latest
variable {s next : State}

theorem insert_preference (ok : Ok s) (key lifeSec flags : UInt16) (addr : In6Addr) (node : Nat)
    (now : Timespec) :
    ∀ ha ∈ (dhaadInsertHalist s key lifeSec flags addr node now).halist,
      addr = ha.addr ∧ ha.preference = key ∨ addr ≠ ha.addr ∧ ha ∈ s.halist := by
  intro ha member
  simp only [dhaadInsertHalist] at member
  split at member
  · rename_i old found
    have perm := find_eraseP found
    have isAddr : old.addr = addr := by simpa using List.find?_some found
    have addrs := ((perm.map HomeAgent.addr).nodup_iff).mp ok.addrs
    rw [List.map_cons, List.nodup_cons] at addrs
    rcases List.mem_cons.mp ((insertHa_perm _).mem_iff.mp member) with rfl | inRest
    · exact .inl ⟨isAddr.symm, rfl⟩
    · refine .inr ⟨?_, List.eraseP_subset inRest⟩
      intro same
      exact addrs.1 (List.mem_map.mpr ⟨ha, inRest, same.symm.trans isAddr.symm⟩)
  · rename_i missing
    rcases List.mem_cons.mp ((insertHa_perm _).mem_iff.mp member) with rfl | before
    · exact .inl ⟨rfl, rfl⟩
    · refine .inr ⟨?_, before⟩
      intro same
      exact List.find?_eq_none.mp missing ha before (by simp [same])

theorem pick_halist (now : Timespec) : (pick s now).halist = s.halist := by
  simp only [pick]
  split
  · rfl
  · split
    · rfl
    · rfl

theorem dhaadExpireHalist_subset (node : Nat) :
    (dhaadExpireHalist s node).halist ⊆ s.halist := by
  simp only [dhaadExpireHalist]
  split
  · exact List.Subset.refl _
  · exact List.filter_subset_self _

theorem step_preference (ok : Ok s) {input : Input} (taken : step s input = .ok next) :
    ∀ ha ∈ next.halist, advertises ha.addr input = some ha.preference ∨
      advertises ha.addr input = none ∧ ha ∈ s.halist := by
  intro ha member
  cases step_taken taken with
  | insert key lifeSec flags addr node now =>
      rcases insert_preference ok key lifeSec flags addr node now ha member with
        ⟨same, isKey⟩ | ⟨other, before⟩
      · exact .inl ((if_pos same).trans (congrArg some isKey.symm))
      · exact .inr ⟨if_neg other, before⟩
  | pick now idle => exact .inr ⟨rfl, pick_halist now ▸ member⟩
  | expire waits => exact .inr ⟨rfl, dhaadExpireHalist_subset _ member⟩
  | release ended => exact .inr ⟨rfl, member⟩
  | stays silent => exact .inr ⟨silent ha.addr, member⟩

theorem run_preference (inputs : List Input) : ∀ {s last : State}, Ok s →
    Meets step Admissible s inputs → run step s inputs = .ok last →
    Ok last ∧ ∀ ha ∈ last.halist, latest ha.addr inputs = some ha.preference ∨
      latest ha.addr inputs = none ∧ ha ∈ s.halist := by
  induction inputs with
  | nil =>
      intro s last ok _ reached
      cases reached
      exact ⟨ok, fun ha member => .inr ⟨rfl, member⟩⟩
  | cons input rest ih =>
      intro s last ok admissible reached
      obtain ⟨next, taken, restRun⟩ := run_cons_ok reached
      obtain ⟨lastOk, later⟩ :=
        ih (ok.step admissible.1 taken) (admissible.2 next taken) restRun
      refine ⟨lastOk, ?_⟩
      intro ha member
      rcases later ha member with advertised | ⟨silent, before⟩
      · exact .inl (by rw [latest, advertised, Option.some_or])
      · rw [latest, silent, Option.none_or]
        exact step_preference ok taken ha before

end Latest

section Answer
variable {flags : UInt16} {max : Nat}

theorem getHalistFrom_eq (halist : List HomeAgent) : ∀ {n : Nat} {iov : List (Option In6Addr)},
    n < max → iov.length = max + 1 →
    getHalistFrom flags max halist n iov =
      let found := ((halist.filter (matchesFlags flags)).take (max - n)).map fun h => some h.addr
      .ok (n + found.length, iov.take (n + 1) ++ found ++ iov.drop (n + 1 + found.length)) := by
  induction halist with
  | nil =>
      intro n iov _ _
      simp [getHalistFrom]
  | cons h rest ih =>
      intro n iov room size
      by_cases wanted : matchesFlags flags h = true
      · have inside : n + 1 < iov.length := by omega
        have more : max - n = (max - (n + 1)) + 1 := by omega
        simp only [getHalistFrom, if_pos wanted, if_pos inside, List.filter_cons_of_pos wanted,
          more, List.take_succ_cons, List.map_cons]
        by_cases full : n + 1 ≥ max
        · have none_ : max - (n + 1) = 0 := by omega
          rw [if_pos full, none_]
          simp only [List.take_zero, List.map_nil, List.length_singleton]
          rw [List.set_eq_take_append_cons_drop, if_pos inside]
          simp
        · rw [if_neg full, ih (by omega) (by simpa using size)]
          have written : (iov.set (n + 1) (some h.addr)).take (n + 1 + 1) =
              iov.take (n + 1) ++ [some h.addr] := by
            rw [List.take_add_one, List.take_set_of_le (Nat.le_refl _),
              List.getElem?_set_self inside]
            rfl
          have behind : ∀ k, (iov.set (n + 1) (some h.addr)).drop (n + 1 + 1 + k) =
              iov.drop (n + 1 + (k + 1)) := by
            intro k
            rw [List.drop_set_of_lt (by omega)]
            congr 1
            omega
          simp only [written, behind, List.length_cons, List.append_assoc, List.cons_append,
            List.nil_append]
          congr 2
          omega
      · simp only [getHalistFrom, if_neg wanted, List.filter_cons_of_neg wanted]
        exact ih room size

def answered (s : State) (flags : UInt16) : List HomeAgent :=
  (s.halist.filter (matchesFlags flags)).take maxHomeAgents

theorem answered_length (s : State) (flags : UInt16) :
    (answered s flags).length ≤ maxHomeAgents := by
  simp [answered]

theorem dhaadGetHalist_eq (s : State) (flags : UInt16) :
    dhaadGetHalist s flags =
      .ok ((answered s flags).length, none :: ((answered s flags).map fun ha => some ha.addr) ++
        List.replicate (maxHomeAgents - (answered s flags).length) none) := by
  have filled := @getHalistFrom_eq flags maxHomeAgents s.halist 0
    (List.replicate (maxHomeAgents + 1) none) (by decide) (by simp)
  have behind : maxHomeAgents + 1 - (0 + 1 + (answered s flags).length) =
      maxHomeAgents - (answered s flags).length := by omega
  simp only [Nat.sub_zero, List.length_map, List.take_replicate, List.drop_replicate] at filled
  simp only [dhaadGetHalist, filled]
  rw [← answered, behind, Nat.zero_add]
  rfl

theorem dhaadRecvReq_eq (s : State) {len : Int} (complete : 8 ≤ len) (flags : UInt16) :
    dhaadRecvReq s len true true flags =
      .ok (some ((answered s flags).map HomeAgent.addr)) := by
  have long : ¬(len < 8 ∨ (!true) = true ∨ (!true) = true) := by simp; omega
  simp only [dhaadRecvReq, if_neg long, dhaadGetHalist_eq]
  simp [List.filterMap_map]

end Answer

instance (s : State) (node : Nat) : Decidable (Firing s node) :=
  inferInstanceAs (Decidable (_ ∧ _))

theorem Ok.count {s : State} (ok : Ok s) :
    ∀ ha ∈ s.halist, s.tqList.count ha.node = if Firing s ha.node then 0 else 1 := by
  intro ha member
  by_cases firing : Firing s ha.node
  · rw [if_pos firing]
    exact List.count_eq_zero_of_not_mem (ok.exclusive ha.node firing)
  · rw [if_neg firing]
    exact List.count_eq_one_of_mem ok.queue ((ok.armed ha member).resolve_right firing)

/-- After every run the list is sorted and without duplicates, its entries are as last
advertised and have one task each, and an answer holds the first ones of the list. -/
theorem halist_ok (inputs : List Input) {s : State}
    (admissible : Meets step Admissible State.init inputs)
    (reached : run step State.init inputs = .ok s) :
    (s.halist.Pairwise fun first second => first.preference ≥ second.preference) ∧
    (s.halist.map HomeAgent.addr).Nodup ∧ (s.halist.map HomeAgent.node).Nodup ∧
    (∀ ha ∈ s.halist, latest ha.addr inputs = some ha.preference) ∧
    (∀ ha ∈ s.halist, s.tqList.count ha.node = if Firing s ha.node then 0 else 1) ∧
    (∀ node ∈ s.tqList, ∃ ha ∈ s.halist, ha.node = node) ∧
    ∀ flags, ((answered s flags).Pairwise fun first second =>
        first.preference ≥ second.preference) ∧
      (∃ iov, dhaadGetHalist s flags = .ok ((answered s flags).length, iov) ∧
        iov.length = maxHomeAgents + 1 ∧
        (iov.drop 1).take (answered s flags).length =
          (answered s flags).map fun ha => some ha.addr) ∧
      ∀ len, 8 ≤ len → dhaadRecvReq s len true true flags =
        .ok (some ((answered s flags).map HomeAgent.addr)) := by
  obtain ⟨ok, preferences⟩ := run_preference inputs ok_init admissible reached
  refine ⟨ok.sorted, ok.addrs, ok.nodes, ?_, ok.count, ok.listed, ?_⟩
  · intro ha member
    rcases preferences ha member with advertised | ⟨-, before⟩
    · exact advertised
    · cases before
  · intro flags
    have fewer : (answered s flags).Sublist s.halist :=
      (List.take_sublist _ _).trans List.filter_sublist
    have room := answered_length s flags
    refine ⟨ok.sorted.sublist fewer, ⟨_, dhaadGetHalist_eq s flags, ?_, ?_⟩,
      fun len complete => dhaadRecvReq_eq s complete flags⟩
    · simp
      omega
    · simp

instance decidableAdmissible (s : State) : (input : Input) → Decidable (Admissible s input)
  | .insert _ _ _ _ node now =>
      inferInstanceAs (Decidable (0 < now.tvSec ∧ ∀ ha ∈ s.halist, ha.node ≠ node))
  | .pick _ => .isTrue trivial
  | .expire => .isTrue trivial
  | .release => .isTrue trivial

def routerAddr (last : UInt8) : In6Addr :=
  ⟨[0x20, 1, 0x0d, 0xb8] ++ List.replicate 11 0 ++ [last], rfl⟩

/-- The first router moves up over the second one, whose task is then taken off the queue. -/
def twoRouters : List Input :=
  [.insert 3 30 0 (routerAddr 1) 100 ⟨50, 0⟩, .insert 7 10 0x0080 (routerAddr 2) 200 ⟨51, 0⟩,
    .insert 9 30 0 (routerAddr 1) 300 ⟨52, 0⟩, .pick ⟨61, 0⟩]

theorem halist_two_routers :
    ∃ s, run step State.init twoRouters = .ok s ∧ s.halist.map HomeAgent.preference = [9, 7] ∧
      Firing s 200 ∧ s.tqList.count 100 = 1 ∧
      dhaadRecvReq s 8 true true 0x0080 = .ok (some [routerAddr 2]) := by
  have admissible : Meets step Admissible State.init twoRouters := by decide
  refine ⟨_, rfl, by decide, by decide, ?_, ?_⟩
  · exact (halist_ok twoRouters admissible rfl).2.2.2.2.1
      ⟨100, routerAddr 1, 9, 0, ⟨30, 0⟩⟩ (by decide)
  · exact ((halist_ok twoRouters admissible rfl).2.2.2.2.2.2 0x0080).2.2 8 (by decide)

end OaiPmip.Dhaad
