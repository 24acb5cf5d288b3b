import Mathlib.Data.List.Basic
import OaiPmip.Types

/-!
# The task queue of tqueue.c

Queue elements are embedded in cache entries and in the tunnel timer table;
here they are values of a type `E`.  The runner takes the first element off the
list once its expiry time has passed and runs its task.  A task runs to its end
before the next event, so `curr` is never cleared under a running task and
`task_interrupted` is false.
-/

set_option autoImplicit false

namespace OaiPmip

inductive Task where
  | retransPbu
  | bceExpired
  | tunnelExpired
  deriving DecidableEq

structure TQueue (E : Type) where
  list : List E
  expires : E → Timespec
  task : E → Option Task

namespace TQueue

variable {E : Type} [DecidableEq E]

def empty (E : Type) : TQueue E := ⟨[], fun _ => ⟨0, 0⟩, fun _ => none⟩

/-- `list_del`, which leaves an element that is in no list alone. -/
def listDel (list : List E) (e : E) : List E := list.filter fun other => other ≠ e

def delTask (q : TQueue E) (e : E) : TQueue E :=
  { q with
    list := listDel q.list e
    expires := Function.update q.expires e ⟨0, 0⟩ }

omit [DecidableEq E] in
def sortedInsert (expires : E → Timespec) (tqi : E) : List E → List E
  | [] => [tqi]
  | cur :: rest =>
      if tsbefore (expires cur) (expires tqi) then tqi :: cur :: rest
      else cur :: sortedInsert expires tqi rest

def addTaskAbs (q : TQueue E) (expires : Timespec) (tqi : E) (task : Task) : TQueue E :=
  let list := if tsisset (q.expires tqi) then listDel q.list tqi else q.list
  let expiresAt := Function.update q.expires tqi expires
  { list := sortedInsert expiresAt tqi list
    expires := expiresAt
    task := Function.update q.task tqi (some task) }

/-- The runner at time `now`: the first element and the queue without it, or
`none` while there is nothing to run. -/
def runner (q : TQueue E) (now : Timespec) : Option (E × TQueue E) :=
  match q.list with
  | [] => none
  | first :: _ =>
      if tsbefore (q.expires first) now then none else some (first, q.delTask first)

@[simp] theorem mem_listDel (list : List E) (e other : E) :
    other ∈ listDel list e ↔ other ∈ list ∧ other ≠ e := by
  simp [listDel]

@[simp] theorem mem_delTask (q : TQueue E) (e other : E) :
    other ∈ (q.delTask e).list ↔ other ∈ q.list ∧ other ≠ e := by
  simp [delTask]

@[simp] theorem delTask_task (q : TQueue E) (e : E) : (q.delTask e).task = q.task := rfl

omit [DecidableEq E] in
theorem mem_sortedInsert (expires : E → Timespec) (tqi other : E) (list : List E) :
    other ∈ sortedInsert expires tqi list ↔ other = tqi ∨ other ∈ list := by
  induction list with
  | nil => simp [sortedInsert]
  | cons cur rest ih =>
      simp only [sortedInsert]
      split
      · simp
      · simp only [List.mem_cons, ih]
        constructor
        · intro either
          rcases either with here | atNew | later
          · exact Or.inr (Or.inl here)
          · exact Or.inl atNew
          · exact Or.inr (Or.inr later)
        · intro either
          rcases either with atNew | here | later
          · exact Or.inr (Or.inl atNew)
          · exact Or.inl here
          · exact Or.inr (Or.inr later)

@[simp] theorem mem_addTaskAbs (q : TQueue E) (expires : Timespec) (tqi other : E) (task : Task) :
    other ∈ (q.addTaskAbs expires tqi task).list ↔ other = tqi ∨ other ∈ q.list := by
  simp only [addTaskAbs]
  rw [mem_sortedInsert]
  by_cases new : other = tqi
  · simp [new]
  · split <;> simp [new]

@[simp] theorem addTaskAbs_task (q : TQueue E) (expires : Timespec) (tqi : E) (task : Task) :
    (q.addTaskAbs expires tqi task).task = Function.update q.task tqi (some task) := rfl

/-! ## What the queue holds of one element -/

def slot (q : TQueue E) (e : E) : Nat × Timespec × Option Task :=
  (q.list.count e, q.expires e, q.task e)

theorem mem_iff_slot (q : TQueue E) (e : E) : e ∈ q.list ↔ (q.slot e).1 ≠ 0 := by
  simp [slot, List.count_eq_zero]

theorem slot_delTask_of_ne (q : TQueue E) {e other : E} (different : other ≠ e) :
    (q.delTask e).slot other = q.slot other := by
  have counted : (listDel q.list e).count other = q.list.count other := by
    apply List.count_filter
    simpa using different
  simp only [slot, delTask, counted, Function.update_of_ne different]

omit [DecidableEq E] in
theorem sortedInsert_perm (expires : E → Timespec) (tqi : E) (list : List E) :
    (sortedInsert expires tqi list).Perm (tqi :: list) := by
  induction list with
  | nil => exact List.Perm.refl _
  | cons cur rest ih =>
      simp only [sortedInsert]
      split
      · exact List.Perm.refl _
      · exact (ih.cons cur).trans (List.Perm.swap tqi cur rest)

theorem slot_addTaskAbs_of_ne (q : TQueue E) (expires : Timespec) {tqi other : E} (task : Task)
    (different : other ≠ tqi) : (q.addTaskAbs expires tqi task).slot other = q.slot other := by
  have kept : (if tsisset (q.expires tqi) then listDel q.list tqi else q.list).count other =
      q.list.count other := by
    split
    · apply List.count_filter
      simpa using different
    · rfl
  have counted := (sortedInsert_perm (Function.update q.expires tqi expires) tqi
    (if tsisset (q.expires tqi) then listDel q.list tqi else q.list)).count_eq other
  rw [List.count_cons_of_ne (Ne.symm different), kept] at counted
  simp only [slot, addTaskAbs, counted, Function.update_of_ne different]

theorem slot_addTaskAbs_self (q : TQueue E) (expires : Timespec) (tqi : E) (task : Task)
    (fit : tqi ∈ q.list → tsisset (q.expires tqi) = true) :
    (q.addTaskAbs expires tqi task).slot tqi = (1, expires, some task) := by
  have gone : (if tsisset (q.expires tqi) then listDel q.list tqi else q.list).count tqi = 0 := by
    apply List.count_eq_zero.mpr
    split
    · simp
    · rename_i unset
      exact fun queued => unset (fit queued)
  have counted := (sortedInsert_perm (Function.update q.expires tqi expires) tqi
    (if tsisset (q.expires tqi) then listDel q.list tqi else q.list)).count_eq tqi
  rw [List.count_cons_self, gone] at counted
  simp only [slot, addTaskAbs, counted, Function.update_self]

theorem runner_some {q next : TQueue E} {now : Timespec} {e : E}
    (popped : q.runner now = some (e, next)) : e ∈ q.list ∧ next = q.delTask e := by
  simp only [runner] at popped
  split at popped
  · cases popped
  · rename_i first rest isList
    split at popped
    · cases popped
    · cases popped
      simp [isList]

end TQueue

end OaiPmip
