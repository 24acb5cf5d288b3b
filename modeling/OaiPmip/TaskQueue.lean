import OaiPmip.TQueue
import OaiPmip.Lib.Runs
import OaiPmip.Lib.RingList

/-!
# The task queue and its runner thread

tqueue.c on its list links, with the runner thread and its clock.  Every
function holds `mutex` from its first to its last access, and the runner lets go
of it only in its waits and around a task, so each of them is one step.  The
elements are those of any type and all initialised at the start.
`TQueue` is what the other modules keep of this queue; `Represents` relates them.
-/

set_option autoImplicit false

namespace OaiPmip.TaskQueue

open OaiPmip.RingList
open OaiPmip.Runs

variable {E : Type} [DecidableEq E]

/-- `tq_list` with the links of the elements, their fields, and `curr`.  `added`
counts the insertions; a walk over the list takes at most one step more. -/
structure Queue (E : Type) where
  tqList : Links E
  expires : E → Timespec
  task : E → Option Task
  curr : Option E
  added : Nat

def Queue.init (E : Type) : Queue E where
  tqList := Links.init E
  expires := fun _ => ⟨0, 0⟩
  task := fun _ => none
  curr := none
  added := 0

/-- `if (elem == curr) curr = NULL`. -/
def clearCurr (curr : Option E) (elem : E) : Option E := if curr = some elem then none else curr

def delTask (q : Queue E) (elem : E) : Queue E :=
  { q with
    tqList := listDel q.tqList (.node elem)
    expires := Function.update q.expires elem ⟨0, 0⟩
    curr := clearCurr q.curr elem }

/-- `none` is a walk that does not come back to the head. -/
def sortedInsert (links : Links E) (expires : E → Timespec) (fuel : Nat) (tqi : E) :
    Option (Links E) :=
  match seek links (fun cur => tsbefore (expires cur) (expires tqi)) fuel .head with
  | none => none
  | some place => some (listAddTail links (.node tqi) place)

def addTaskAbs (q : Queue E) (expires : Timespec) (tqi : E) (task : Task) : Option (Queue E) :=
  let links := if tsisset (q.expires tqi) then listDel q.tqList (.node tqi) else q.tqList
  let expiresAt := Function.update q.expires tqi expires
  match sortedInsert links expiresAt (q.added + 1) tqi with
  | none => none
  | some inserted => some
      { tqList := inserted
        expires := expiresAt
        task := Function.update q.task tqi (some task)
        curr := clearCurr q.curr tqi
        added := q.added + 1 }

omit [DecidableEq E] in
def taskInterrupted (q : Queue E) : Bool := q.curr.isNone

/-- The runner waits on `cond`, or has taken `first` off the list at the time
`now` and is out of the mutex to run its task. -/
inductive Runner (E : Type) where
  | waiting
  | running (first : E) (now : Timespec)

/-- The inner loop of `runner`, up to the next task or the next wait. -/
def nextTask (q : Queue E) (now : Timespec) : Queue E × Runner E :=
  match q.tqList.next .head with
  | .head => (q, .waiting)
  | .node first =>
      if tsbefore (q.expires first) now then (q, .waiting)
      else
        ({ q with
            tqList := listDel q.tqList (.node first)
            expires := Function.update q.expires first ⟨0, 0⟩
            curr := some first }, .running first now)

inductive Event (E : Type) where
  | added (e : E)
  | deleted (e : E)
  | started (e : E)

structure Machine (E : Type) where
  queue : Queue E
  clock : Timespec
  runner : Runner E
  log : List (Event E)

def Machine.init (E : Type) (clock : Timespec) : Machine E where
  queue := Queue.init E
  clock := clock
  runner := .waiting
  log := []

/-- Calls of any thread, with a time that is set in an addition; the clock going
on; the runner's wait being over, for whatever reason; the running task's return. -/
inductive Input (E : Type) where
  | add (tqi : E) (expires : { t : Timespec // tsisset t = true }) (task : Task)
  | del (elem : E)
  | tick (later : Timespec)
  | wake
  | finish

inductive Crash where
  | endlessWalk

def started (runner : Runner E) (log : List (Event E)) : List (Event E) :=
  match runner with
  | .waiting => log
  | .running first _ => .started first :: log

def resume (m : Machine E) (q : Queue E) (now : Timespec) : Machine E :=
  { m with
    queue := (nextTask q now).1
    runner := (nextTask q now).2
    log := started (nextTask q now).2 m.log }

def step (m : Machine E) : Input E → Except Crash (Machine E)
  | .add tqi expires task =>
      match addTaskAbs m.queue expires.1 tqi task with
      | none => .error .endlessWalk
      | some queue => .ok { m with queue := queue, log := .added tqi :: m.log }
  | .del elem => .ok { m with queue := delTask m.queue elem, log := .deleted elem :: m.log }
  | .tick later => .ok { m with clock := if tsbefore m.clock later then m.clock else later }
  | .wake =>
      match m.runner with
      | .waiting => .ok (resume m m.queue m.clock)
      | .running _ _ => .ok m
  | .finish =>
      match m.runner with
      | .waiting => .ok m
      | .running _ now => .ok (resume m { m.queue with curr := none } now)

theorem listDel_append {front back : List E} {e : E} (nodup : (front ++ e :: back).Nodup) :
    TQueue.listDel (front ++ e :: back) e = front ++ back := by
  obtain ⟨-, nodupRest, disjoint⟩ := List.nodup_append.mp nodup
  obtain ⟨notBack, -⟩ := List.nodup_cons.mp nodupRest
  have keepsFront : front.filter (fun other => other ≠ e) = front := by
    apply List.filter_eq_self.mpr
    intro other member
    simpa using disjoint other member e List.mem_cons_self
  have keepsBack : back.filter (fun other => other ≠ e) = back := by
    apply List.filter_eq_self.mpr
    intro other member
    simpa using fun same : other = e => notBack (same ▸ member)
  simp only [TQueue.listDel, List.filter_append, List.filter_cons, ne_eq, not_true_eq_false,
    decide_false, Bool.false_eq_true, if_false]
  rw [keepsFront, keepsBack]

theorem listDel_absent {list : List E} {e : E} (absent : e ∉ list) :
    TQueue.listDel list e = list := by
  apply List.filter_eq_self.mpr
  intro other member
  simpa using fun same : other = e => absent (same ▸ member)

/-- `list_del` on the links is the deletion from the list, queued or not. -/
theorem ring_listDel_any {links : Links E} {list : List E} (ring : Ring links list) (e : E) :
    Ring (listDel links (.node e)) (TQueue.listDel list e) := by
  by_cases queued : e ∈ list
  · obtain ⟨front, back, rfl⟩ := List.append_of_mem queued
    rw [listDel_append ring.nodup]
    exact ring_listDel ring
  · rw [listDel_alone ring queued, listDel_absent queued]
    exact ring

omit [DecidableEq E] in
theorem sortedInsert_split (expires : E → Timespec) (tqi : E) (list : List E) :
    TQueue.sortedInsert expires tqi list =
      list.takeWhile (fun cur => !tsbefore (expires cur) (expires tqi)) ++
        tqi :: list.dropWhile (fun cur => !tsbefore (expires cur) (expires tqi)) := by
  induction list with
  | nil => rfl
  | cons cur rest ih =>
      by_cases later : tsbefore (expires cur) (expires tqi) = true
      · simp [TQueue.sortedInsert, later]
      · simp [TQueue.sortedInsert, later, ih]

theorem ring_sortedInsert {links : Links E} {list : List E} (ring : Ring links list) {tqi : E}
    (absent : tqi ∉ list) (expires : E → Timespec) {fuel : Nat} (enough : list.length < fuel) :
    ∃ inserted, sortedInsert links expires fuel tqi = some inserted ∧
      Ring inserted (TQueue.sortedInsert expires tqi list) := by
  have place := seek_segment (fun cur => tsbefore (expires cur) (expires tqi)) ring.segment enough
  have walks : sortedInsert links expires fuel tqi = some (listAddTail links (.node tqi)
      (firstLink (list.dropWhile fun cur => !tsbefore (expires cur) (expires tqi)) .head)) := by
    simp only [sortedInsert, place]
  refine ⟨_, walks, ?_⟩
  rw [sortedInsert_split]
  apply ring_listAddTail
  · rw [List.takeWhile_append_dropWhile]
    exact ring
  · rw [List.takeWhile_append_dropWhile]
    exact absent

structure Represents (q : Queue E) (t : TQueue E) : Prop where
  ring : Ring q.tqList t.list
  expires : q.expires = t.expires
  task : q.task = t.task
  walk : t.list.length ≤ q.added

omit [DecidableEq E] in
theorem represents_init : Represents (Queue.init E) (TQueue.empty E) where
  ring := ring_init
  expires := rfl
  task := rfl
  walk := Nat.le_refl 0

theorem Represents.delTask {q : Queue E} {t : TQueue E} (same : Represents q t) (elem : E) :
    Represents (delTask q elem) (t.delTask elem) where
  ring := ring_listDel_any same.ring elem
  expires := by simp only [TaskQueue.delTask, TQueue.delTask, same.expires]
  task := same.task
  walk := Nat.le_trans (List.length_filter_le _ _) same.walk

/-- An insertion comes to its end and is the insertion into the list, where only
queued elements have a time. -/
theorem Represents.addTaskAbs {q : Queue E} {t : TQueue E} (same : Represents q t)
    (expires : Timespec) {tqi : E} (task : Task)
    (fit : tqi ∈ t.list → tsisset (t.expires tqi) = true) :
    ∃ next, addTaskAbs q expires tqi task = some next ∧
      Represents next (t.addTaskAbs expires tqi task) ∧ next.curr = clearCurr q.curr tqi := by
  have unlinked : Ring (if tsisset (q.expires tqi) then listDel q.tqList (.node tqi) else q.tqList)
      (if tsisset (t.expires tqi) then TQueue.listDel t.list tqi else t.list) := by
    rw [same.expires]
    split
    · exact ring_listDel_any same.ring tqi
    · exact same.ring
  have absent : tqi ∉ (if tsisset (t.expires tqi) then TQueue.listDel t.list tqi else t.list) := by
    split
    · simp
    · rename_i unset
      exact fun queued => unset (fit queued)
  have shorter : (if tsisset (t.expires tqi) then TQueue.listDel t.list tqi
      else t.list).length ≤ q.added := by
    split
    · exact Nat.le_trans (List.length_filter_le _ _) same.walk
    · exact same.walk
  obtain ⟨inserted, walks, ring⟩ := ring_sortedInsert unlinked absent
    (Function.update q.expires tqi expires) (Nat.lt_succ_of_le shorter)
  have adds : TaskQueue.addTaskAbs q expires tqi task = some
      { tqList := inserted
        expires := Function.update q.expires tqi expires
        task := Function.update q.task tqi (some task)
        curr := clearCurr q.curr tqi
        added := q.added + 1 } := by
    simp only [TaskQueue.addTaskAbs, walks]
  refine ⟨_, adds, ⟨?_, ?_, ?_, ?_⟩, rfl⟩
  · rw [same.expires] at ring
    exact ring
  · simp only [TQueue.addTaskAbs, same.expires]
  · simp only [TQueue.addTaskAbs, same.task]
  · have length := (TQueue.sortedInsert_perm (Function.update t.expires tqi expires) tqi
      (if tsisset (t.expires tqi) then TQueue.listDel t.list tqi else t.list)).length_eq
    rw [List.length_cons] at length
    simp only [TQueue.addTaskAbs, length]
    omega

theorem Represents.nextTask {q : Queue E} {t : TQueue E} (same : Represents q t)
    (now : Timespec) :
    (t.runner now = none ∧ nextTask q now = (q, .waiting)) ∨
      ∃ first rest, t.list = first :: rest ∧ tsbefore (t.expires first) now = false ∧
        (nextTask q now).2 = .running first now ∧ (nextTask q now).1.curr = some first ∧
        Represents (nextTask q now).1 (t.delTask first) := by
  have next := same.ring.segment.next_eq
  cases isList : t.list with
  | nil =>
      rw [isList] at next
      left
      simp only [TQueue.runner, isList, TaskQueue.nextTask, next, firstLink, and_self]
  | cons first rest =>
      rw [isList] at next
      by_cases notYet : tsbefore (t.expires first) now = true
      · left
        simp only [TQueue.runner, isList, TaskQueue.nextTask, next, firstLink, same.expires,
          notYet, if_true, and_self]
      · right
        have due : tsbefore (t.expires first) now = false := by simpa using notYet
        have deleted := same.delTask first
        refine ⟨first, rest, rfl, due, ?_⟩
        simp only [TaskQueue.nextTask, next, firstLink, same.expires, due, Bool.false_eq_true,
          if_false, true_and]
        exact ⟨deleted.ring, rfl, deleted.task, deleted.walk⟩

/-! ## The contract -/

def Earlier (a b : Timespec) : Prop :=
  a.tvSec < b.tvSec ∨ a.tvSec = b.tvSec ∧ a.tvNsec < b.tvNsec

/-- The time of the last addition of `e`, counted in events. -/
def addedAt (e : E) : List (Event E) → Nat
  | [] => 0
  | .added other :: older => if other = e then older.length + 1 else addedAt e older
  | .deleted _ :: older => addedAt e older
  | .started _ :: older => addedAt e older

/-- Whether `e` was added or deleted since it was last started. -/
def touched (e : E) : List (Event E) → Bool
  | [] => false
  | .added other :: older => other = e || touched e older
  | .deleted other :: older => other = e || touched e older
  | .started other :: older => if other = e then false else touched e older

def InOrder (expires : E → Timespec) (place : E → Nat) (a b : E) : Prop :=
  Earlier (expires a) (expires b) ∨ expires a = expires b ∧ place a < place b

structure Contract (m : Machine E) (elements : List E) : Prop where
  linked : Ring m.queue.tqList elements
  sorted : elements.Pairwise (InOrder m.queue.expires fun e => addedAt e m.log)
  timed : ∀ e, e ∈ elements ↔ tsisset (m.queue.expires e) = true
  starts : ∀ input next first, step m input = .ok next → next.log = .started first :: m.log →
    first ∈ elements ∧ ¬Earlier m.clock (m.queue.expires first) ∧
      ∀ other ∈ elements, ¬Earlier (m.queue.expires other) (m.queue.expires first)
  interrupted : ∀ first now, m.runner = .running first now →
    (taskInterrupted m.queue = true ↔ touched first m.log = true)

theorem tsbefore_iff (a b : Timespec) : tsbefore a b = true ↔ Earlier b a := by
  simp only [tsbefore, Earlier]
  split
  · rename_i sameSec
    simp only [decide_eq_true_eq]
    omega
  · rename_i otherSec
    simp only [decide_eq_true_eq]
    omega

theorem tsbefore_eq_false (a b : Timespec) : tsbefore a b = false ↔ ¬Earlier b a := by
  rw [← tsbefore_iff, Bool.not_eq_true]

theorem not_earlier_trans {a b c : Timespec} (first : ¬Earlier b a) (second : ¬Earlier c b) :
    ¬Earlier c a := by
  simp only [Earlier] at *
  omega

theorem earlier_or_eq {a b : Timespec} (notAfter : ¬Earlier b a) : Earlier a b ∨ a = b := by
  cases a
  cases b
  simp only [Earlier, Timespec.mk.injEq] at *
  omega

theorem earlier_of_earlier {a b c : Timespec} (first : Earlier a b) (second : ¬Earlier c b) :
    Earlier a c := by
  simp only [Earlier] at *
  omega

theorem addedAt_le (e : E) (log : List (Event E)) : addedAt e log ≤ log.length := by
  induction log with
  | nil => exact Nat.le_refl 0
  | cons event older ih =>
      rw [List.length_cons]
      cases event with
      | added other =>
          simp only [addedAt]
          split
          · exact Nat.le_refl _
          · omega
      | deleted other =>
          simp only [addedAt]
          omega
      | started other =>
          simp only [addedAt]
          omega

omit [DecidableEq E] in
theorem InOrder.not_earlier {expires : E → Timespec} {place : E → Nat} {a b : E}
    (inOrder : InOrder expires place a b) : ¬Earlier (expires b) (expires a) := by
  rcases inOrder with earlier | ⟨same, -⟩
  · simp only [Earlier] at *
    omega
  · rw [same]
    simp only [Earlier]
    omega

omit [DecidableEq E] in
theorem sorted_congr {expires expires' : E → Timespec} {place place' : E → Nat} {list : List E}
    (sorted : list.Pairwise (InOrder expires place))
    (same : ∀ e ∈ list, expires' e = expires e ∧ place' e = place e) :
    list.Pairwise (InOrder expires' place') := by
  apply sorted.imp_of_mem
  intro a b inFirst inSecond ordered
  obtain ⟨expiresA, placeA⟩ := same a inFirst
  obtain ⟨expiresB, placeB⟩ := same b inSecond
  simpa only [InOrder, expiresA, placeA, expiresB, placeB] using ordered

omit [DecidableEq E] in
theorem sorted_sortedInsert {expires : E → Timespec} {place : E → Nat} {tqi : E} {list : List E}
    (sorted : list.Pairwise (InOrder expires place))
    (newest : ∀ other ∈ list, place other < place tqi) :
    (TQueue.sortedInsert expires tqi list).Pairwise (InOrder expires place) := by
  induction list with
  | nil => exact List.pairwise_singleton _ _
  | cons cur rest ih =>
      obtain ⟨ahead, sortedRest⟩ := List.pairwise_cons.mp sorted
      by_cases later : tsbefore (expires cur) (expires tqi) = true
      · simp only [TQueue.sortedInsert, later, if_true]
        have first : Earlier (expires tqi) (expires cur) := (tsbefore_iff _ _).mp later
        refine List.pairwise_cons.mpr ⟨?_, sorted⟩
        intro other member
        rcases List.mem_cons.mp member with rfl | inRest
        · exact Or.inl first
        · exact Or.inl (earlier_of_earlier first (ahead other inRest).not_earlier)
      · simp only [TQueue.sortedInsert, later]
        have notAfter : ¬Earlier (expires tqi) (expires cur) :=
          fun earlier => later ((tsbefore_iff _ _).mpr earlier)
        refine List.pairwise_cons.mpr ⟨?_, ih sortedRest fun other inRest =>
          newest other (List.mem_cons_of_mem _ inRest)⟩
        intro other member
        rcases (TQueue.mem_sortedInsert expires tqi other rest).mp member with rfl | inRest
        · rcases earlier_or_eq notAfter with earlier | same
          · exact Or.inl earlier
          · exact Or.inr ⟨same, newest cur List.mem_cons_self⟩
        · exact ahead other inRest

/-! ## The invariant -/

def RunnerOk (m : Machine E) : Prop :=
  match m.runner with
  | .waiting => True
  | .running first now =>
      ¬Earlier m.clock now ∧ m.queue.curr = if touched first m.log then none else some first

structure Held (m : Machine E) (t : TQueue E) : Prop where
  represents : Represents m.queue t
  sorted : t.list.Pairwise (InOrder t.expires fun e => addedAt e m.log)
  timed : ∀ e, e ∈ t.list ↔ tsisset (t.expires e) = true
  runner : RunnerOk m

theorem held_init (clock : Timespec) : Held (Machine.init E clock) (TQueue.empty E) where
  represents := represents_init
  sorted := List.Pairwise.nil
  timed := by
    intro e
    simp [TQueue.empty, tsisset]
  runner := trivial

theorem clearCurr_touched (curr : Option E) (first elem : E) (before : Bool)
    (isCurr : curr = if before then none else some first) :
    clearCurr curr elem = if (elem = first || before) then none else some first := by
  cases before with
  | true => simp [isCurr, clearCurr]
  | false =>
      by_cases same : elem = first
      · simp [isCurr, clearCurr, same]
      · simp [isCurr, clearCurr, same, Ne.symm same]

theorem RunnerOk.touches {m : Machine E} (ok : RunnerOk m) (q : Queue E) (elem : E)
    (curr : q.curr = clearCurr m.queue.curr elem) {event : Event E}
    (isTouch : ∀ first, touched first (event :: m.log) = (elem = first || touched first m.log)) :
    RunnerOk { m with queue := q, log := event :: m.log } := by
  simp only [RunnerOk] at *
  split
  · trivial
  · rename_i first now isRunning
    rw [isRunning] at ok
    obtain ⟨past, isCurr⟩ := ok
    refine ⟨past, ?_⟩
    rw [curr, isTouch, clearCurr_touched _ first elem _ isCurr]

theorem delTask_sorted {t : TQueue E} {place : E → Nat}
    (sorted : t.list.Pairwise (InOrder t.expires place)) (elem : E) :
    (t.delTask elem).list.Pairwise (InOrder (t.delTask elem).expires place) := by
  have kept : (t.delTask elem).list.Pairwise (InOrder t.expires place) := List.Pairwise.filter _ sorted
  apply sorted_congr kept
  intro e member
  obtain ⟨-, different⟩ := (TQueue.mem_delTask t elem e).mp member
  exact ⟨Function.update_of_ne different _ _, rfl⟩

theorem delTask_timed {t : TQueue E} (timed : ∀ e, e ∈ t.list ↔ tsisset (t.expires e) = true)
    (elem e : E) :
    e ∈ (t.delTask elem).list ↔ tsisset ((t.delTask elem).expires e) = true := by
  rw [TQueue.mem_delTask]
  by_cases same : e = elem
  · subst same
    simp [TQueue.delTask, tsisset]
  · have other : (t.delTask elem).expires e = t.expires e := Function.update_of_ne same _ _
    rw [other, ← timed e]
    exact ⟨fun both => both.1, fun queued => ⟨queued, same⟩⟩

theorem Held.add {m : Machine E} {t : TQueue E} (held : Held m t) (tqi : E)
    (expires : { t : Timespec // tsisset t = true }) (task : Task) :
    ∃ next, step m (.add tqi expires task) = .ok next ∧
      Held next (t.addTaskAbs expires.1 tqi task) := by
  obtain ⟨queue, adds, represents, curr⟩ :=
    held.represents.addTaskAbs expires.1 task (held.timed tqi).mp
  refine ⟨{ m with queue := queue, log := .added tqi :: m.log }, by simp only [step, adds], ?_⟩
  refine ⟨represents, ?_, ?_, held.runner.touches queue tqi curr fun _ => rfl⟩
  · have others : ∀ other ∈ (if tsisset (t.expires tqi) then TQueue.listDel t.list tqi
        else t.list), other ≠ tqi := by
      intro other member same
      subst same
      split at member
      · simp at member
      · rename_i unset
        exact unset ((held.timed other).mp member)
    apply sorted_sortedInsert
    · have kept : (if tsisset (t.expires tqi) then TQueue.listDel t.list tqi else t.list).Pairwise
          (InOrder t.expires fun e => addedAt e m.log) := by
        split
        · exact List.Pairwise.filter _ held.sorted
        · exact held.sorted
      apply sorted_congr kept
      intro e member
      exact ⟨Function.update_of_ne (others e member) _ _,
        if_neg (Ne.symm (others e member))⟩
    · intro other member
      have older := addedAt_le other m.log
      simp only [addedAt, if_neg (Ne.symm (others other member)), if_true]
      omega
  · intro e
    rw [TQueue.mem_addTaskAbs]
    by_cases same : e = tqi
    · subst same
      have atNew : (t.addTaskAbs expires.1 e task).expires e = expires.1 := Function.update_self ..
      rw [atNew]
      exact ⟨fun _ => expires.2, fun _ => Or.inl rfl⟩
    · have other : (t.addTaskAbs expires.1 tqi task).expires e = t.expires e :=
        Function.update_of_ne same _ _
      rw [other, ← held.timed e]
      exact ⟨fun either => either.resolve_left same, Or.inr⟩

theorem Held.del {m : Machine E} {t : TQueue E} (held : Held m t) (elem : E) :
    Held { m with queue := delTask m.queue elem, log := .deleted elem :: m.log }
      (t.delTask elem) where
  represents := held.represents.delTask elem
  sorted := delTask_sorted held.sorted elem
  timed := delTask_timed held.timed elem
  runner := held.runner.touches _ elem rfl fun _ => rfl

theorem Held.resume {m : Machine E} {t : TQueue E} (held : Held m t) {q : Queue E}
    (represents : Represents q t) {now : Timespec} (past : ¬Earlier m.clock now) :
    (∃ next, Held (resume m q now) next) ∧
      ∀ first, (resume m q now).log = .started first :: m.log →
        first ∈ t.list ∧ ¬Earlier m.clock (t.expires first) ∧
          ∀ other ∈ t.list, ¬Earlier (t.expires other) (t.expires first) := by
  rcases represents.nextTask now with ⟨-, waits⟩ | ⟨first, rest, isList, due, runs, curr, taken⟩
  · constructor
    · refine ⟨t, ?_⟩
      simp only [TaskQueue.resume, waits, started]
      exact ⟨represents, held.sorted, held.timed, trivial⟩
    · intro first logged
      simp only [TaskQueue.resume, waits, started] at logged
      exact absurd logged List.ne_cons_self
  · constructor
    · refine ⟨t.delTask first, ?_⟩
      refine ⟨taken, ?_, delTask_timed held.timed first, ?_⟩
      · simp only [TaskQueue.resume, runs, started]
        exact delTask_sorted held.sorted first
      · simp only [RunnerOk, TaskQueue.resume, runs, started, touched, if_true, curr]
        exact ⟨past, rfl⟩
    · intro other logged
      simp only [TaskQueue.resume, runs, started, List.cons.injEq, Event.started.injEq,
        and_true] at logged
      subst logged
      have sorted := held.sorted
      rw [isList] at sorted ⊢
      refine ⟨List.mem_cons_self, not_earlier_trans ((tsbefore_eq_false _ _).mp due) past, ?_⟩
      intro later member
      rcases List.mem_cons.mp member with rfl | inRest
      · simp only [Earlier]
        omega
      · exact ((List.pairwise_cons.mp sorted).1 later inRest).not_earlier

theorem Held.tick {m : Machine E} {t : TQueue E} (held : Held m t) (later : Timespec) :
    Held { m with clock := if tsbefore m.clock later then m.clock else later } t := by
  refine ⟨held.represents, held.sorted, held.timed, ?_⟩
  have runner := held.runner
  simp only [RunnerOk] at *
  split
  · trivial
  · rename_i first now isRunning
    rw [isRunning] at runner
    obtain ⟨past, isCurr⟩ := runner
    refine ⟨?_, isCurr⟩
    split
    · exact past
    · rename_i forward
      exact not_earlier_trans past ((tsbefore_eq_false _ _).mp (by simpa using forward))

theorem Held.released {m : Machine E} {t : TQueue E} (held : Held m t) :
    Represents { m.queue with curr := none } t where
  ring := held.represents.ring
  expires := held.represents.expires
  task := held.represents.task
  walk := held.represents.walk

/-- Each step goes through, keeps the invariant and starts only a due element
that none precedes. -/
theorem Held.step {m : Machine E} {t : TQueue E} (held : Held m t) (input : Input E) :
    ∃ next, step m input = .ok next ∧ (∃ t', Held next t') ∧
      ∀ first, next.log = .started first :: m.log →
        first ∈ t.list ∧ ¬Earlier m.clock (t.expires first) ∧
          ∀ other ∈ t.list, ¬Earlier (t.expires other) (t.expires first) := by
  cases input with
  | add tqi expires task =>
      obtain ⟨next, steps, kept⟩ := held.add tqi expires task
      refine ⟨next, steps, ⟨_, kept⟩, ?_⟩
      intro first logged
      simp only [TaskQueue.step] at steps
      split at steps
      · cases steps
      · cases steps
        simp at logged
  | del elem =>
      refine ⟨_, rfl, ⟨_, held.del elem⟩, ?_⟩
      intro first logged
      simp at logged
  | tick later =>
      refine ⟨_, rfl, ⟨_, held.tick later⟩, ?_⟩
      intro first logged
      exact absurd logged List.ne_cons_self
  | wake =>
      cases isRunner : m.runner with
      | waiting =>
          have present : ¬Earlier m.clock m.clock := by
            simp only [Earlier]
            omega
          refine ⟨TaskQueue.resume m m.queue m.clock, by simp only [TaskQueue.step, isRunner], ?_⟩
          exact held.resume held.represents present
      | running first now =>
          refine ⟨m, by simp only [TaskQueue.step, isRunner], ⟨t, held⟩, ?_⟩
          intro other logged
          exact absurd logged List.ne_cons_self
  | finish =>
      cases isRunner : m.runner with
      | waiting =>
          refine ⟨m, by simp only [TaskQueue.step, isRunner], ⟨t, held⟩, ?_⟩
          intro other logged
          exact absurd logged List.ne_cons_self
      | running first now =>
          have runner := held.runner
          simp only [RunnerOk, isRunner] at runner
          refine ⟨TaskQueue.resume m { m.queue with curr := none } now,
            by simp only [TaskQueue.step, isRunner], ?_⟩
          exact held.resume held.released runner.1

theorem Held.contract {m : Machine E} {t : TQueue E} (held : Held m t) : Contract m t.list := by
  refine ⟨held.represents.ring, ?_, ?_, ?_, ?_⟩
  · rw [held.represents.expires]
    exact held.sorted
  · intro e
    rw [held.represents.expires]
    exact held.timed e
  · intro input next first steps logged
    obtain ⟨reached, isReached, -, starts⟩ := held.step input
    rw [steps] at isReached
    cases isReached
    rw [held.represents.expires]
    exact starts first logged
  · intro first now isRunning
    have runner := held.runner
    simp only [RunnerOk, isRunning] at runner
    simp only [taskInterrupted, runner.2]
    cases touched first m.log with
    | true => simp
    | false => simp

theorem run_held (clock : Timespec) (inputs : List (Input E)) :
    ∃ m, run step (Machine.init E clock) inputs = .ok m ∧ ∃ t, Held m t := by
  have keeps : ∀ (m : Machine E) (input : Input E), (∃ t, Held m t) → True →
      ∃ next, step m input = .ok next ∧ ∃ t, Held next t := by
    intro m input holds _
    obtain ⟨t, held⟩ := holds
    obtain ⟨next, steps, kept, -⟩ := held.step input
    exact ⟨next, steps, kept⟩
  exact run_succeeds keeps ⟨_, held_init clock⟩ (meets_always (fun _ _ => trivial) inputs _)

/-- Along every run the list is sorted, holds exactly the elements with a time,
gives the runner due elements in order, and tells a task whether its element was
touched since. -/
theorem run_contract (clock : Timespec) (inputs : List (Input E)) :
    ∃ m elements, run step (Machine.init E clock) inputs = .ok m ∧ Contract m elements := by
  obtain ⟨m, runs, t, held⟩ := run_held clock inputs
  exact ⟨m, t.list, runs, held.contract⟩

/-- An addition is carried out, and a runner that waits while an element is due
starts one as soon as it wakes. -/
structure Serves (m : Machine E) (elements : List E) : Prop where
  queued : Contract m elements
  adds : ∀ tqi expires task, ∃ next after, step m (.add tqi expires task) = .ok next ∧
    Contract next after ∧ (∀ e, e ∈ after ↔ e = tqi ∨ e ∈ elements) ∧
      next.queue.expires = Function.update m.queue.expires tqi expires.1 ∧
      next.queue.task = Function.update m.queue.task tqi (some task)
  starts : m.runner = .waiting → ∀ e ∈ elements, ¬Earlier m.clock (m.queue.expires e) →
    ∃ next first, step m .wake = .ok next ∧ first ∈ elements ∧
      next.runner = .running first m.clock ∧ next.log = .started first :: m.log

theorem Held.adds {m : Machine E} {t : TQueue E} (held : Held m t) (tqi : E)
    (expires : { t : Timespec // tsisset t = true }) (task : Task) :
    ∃ next after, TaskQueue.step m (.add tqi expires task) = .ok next ∧ Contract next after ∧
      (∀ e, e ∈ after ↔ e = tqi ∨ e ∈ t.list) ∧
      next.queue.expires = Function.update m.queue.expires tqi expires.1 ∧
      next.queue.task = Function.update m.queue.task tqi (some task) := by
  obtain ⟨next, steps, kept⟩ := held.add tqi expires task
  refine ⟨next, _, steps, kept.contract, fun e => TQueue.mem_addTaskAbs t expires.1 tqi e task, ?_, ?_⟩
  · rw [kept.represents.expires, held.represents.expires]
    rfl
  · rw [kept.represents.task, held.represents.task]
    rfl

theorem Held.wakes {m : Machine E} {t : TQueue E} (held : Held m t) (waits : m.runner = .waiting)
    {e : E} (queued : e ∈ t.list) (due : ¬Earlier m.clock (m.queue.expires e)) :
    ∃ next first, TaskQueue.step m .wake = .ok next ∧ first ∈ t.list ∧
      next.runner = .running first m.clock ∧ next.log = .started first :: m.log := by
  have wakes : TaskQueue.step m .wake = .ok (TaskQueue.resume m m.queue m.clock) := by
    simp only [TaskQueue.step, waits]
  rw [held.represents.expires] at due
  rcases held.represents.nextTask m.clock with ⟨idle, -⟩ | ⟨first, rest, isList, -, runs, -, -⟩
  · cases isList : t.list with
    | nil => simp [isList] at queued
    | cons first rest =>
        have sorted := held.sorted
        rw [isList] at queued sorted
        have soonest : ¬Earlier (t.expires e) (t.expires first) := by
          rcases List.mem_cons.mp queued with rfl | inRest
          · simp only [Earlier]
            omega
          · exact ((List.pairwise_cons.mp sorted).1 e inRest).not_earlier
        have notYet : tsbefore (t.expires first) m.clock = false :=
          (tsbefore_eq_false _ _).mpr (not_earlier_trans soonest due)
        simp [TQueue.runner, isList, notYet] at idle
  · refine ⟨_, first, wakes, ?_, ?_, ?_⟩
    · rw [isList]
      exact List.mem_cons_self
    · simp only [TaskQueue.resume, runs]
    · simp only [TaskQueue.resume, runs, started]

theorem run_serves (clock : Timespec) (inputs : List (Input E)) :
    ∃ m elements, run step (Machine.init E clock) inputs = .ok m ∧ Serves m elements := by
  obtain ⟨m, runs, t, held⟩ := run_held clock inputs
  exact ⟨m, t.list, runs, held.contract, held.adds, fun waits _ queued due => held.wakes waits queued due⟩

end OaiPmip.TaskQueue
