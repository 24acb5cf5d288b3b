import Mathlib.Tactic.Common

/-!
# Lock discipline

A path is what a call computes and, in order, the locks it takes and gives back
and the data it modifies under them.  It is disciplined if it takes no lock that
it has, gives back no lock that it does not have, modifies data only under the
write lock that guards them, and has no lock when it returns.  A path that fails
half way keeps what it has.
-/

set_option autoImplicit false

namespace OaiPmip.Locks

inductive Mode where
  | read
  | write
  deriving DecidableEq

inductive LockOp (L : Type) where
  | acquire (lock : L) (mode : Mode)
  | release (lock : L)
  | modify (guard : L)
  deriving DecidableEq

abbrev Held (L : Type) := List (L × Mode)

variable {L : Type} [DecidableEq L]

def Held.owns (held : Held L) (lock : L) : Bool := held.any fun own => own.1 = lock

namespace LockOp

def Allowed (held : Held L) : LockOp L → Prop
  | .acquire lock _ => held.owns lock = false
  | .release lock => held.owns lock = true
  | .modify guard => (guard, .write) ∈ held

instance (held : Held L) : ∀ op : LockOp L, Decidable (op.Allowed held)
  | .acquire lock _ => inferInstanceAs (Decidable (held.owns lock = false))
  | .release lock => inferInstanceAs (Decidable (held.owns lock = true))
  | .modify guard => inferInstanceAs (Decidable ((guard, Mode.write) ∈ held))

def apply (held : Held L) : LockOp L → Held L
  | .acquire lock mode => (lock, mode) :: held
  | .release lock => held.filter fun own => own.1 ≠ lock
  | .modify _ => held

def acquires (lock : L) : LockOp L → Bool
  | .acquire other _ => other = lock
  | _ => false

def releases (lock : L) : LockOp L → Bool
  | .release other => other = lock
  | _ => false

end LockOp

def heldAfter (held : Held L) (ops : List (LockOp L)) : Held L := ops.foldl LockOp.apply held

def Disciplined : Held L → List (LockOp L) → Prop
  | _, [] => True
  | held, op :: ops => op.Allowed held ∧ Disciplined (op.apply held) ops

instance decidableDisciplined : ∀ (ops : List (LockOp L)) (held : Held L),
    Decidable (Disciplined held ops)
  | [], _ => .isTrue trivial
  | op :: ops, held =>
      have : Decidable (Disciplined (op.apply held) ops) := decidableDisciplined ops (op.apply held)
      inferInstanceAs (Decidable (op.Allowed held ∧ Disciplined (op.apply held) ops))

@[simp] theorem Held.owns_cons (own : L × Mode) (held : Held L) (lock : L) :
    Held.owns (own :: held) lock = (decide (own.1 = lock) || held.owns lock) := rfl

theorem LockOp.release_acquire {held : Held L} {lock : L} (unowned : held.owns lock = false)
    (mode : Mode) : (LockOp.release lock).apply ((lock, mode) :: held) = held := by
  have others : ∀ own ∈ held, own.1 ≠ lock := by
    intro own member same
    have owned : held.owns lock = true := List.any_eq_true.mpr ⟨own, member, by simpa using same⟩
    rw [unowned] at owned
    cases owned
  simp only [LockOp.apply, ne_eq, not_true_eq_false, decide_false, Bool.false_eq_true,
    not_false_eq_true, List.filter_cons_of_neg]
  exact List.filter_eq_self.mpr fun own member => by simpa using others own member

theorem heldAfter_append (held : Held L) (first second : List (LockOp L)) :
    heldAfter held (first ++ second) = heldAfter (heldAfter held first) second :=
  List.foldl_append

theorem disciplined_append (held : Held L) (first second : List (LockOp L)) :
    Disciplined held (first ++ second) ↔
      Disciplined held first ∧ Disciplined (heldAfter held first) second := by
  induction first generalizing held with
  | nil => exact ⟨fun later => ⟨trivial, later⟩, fun both => both.2⟩
  | cons op rest ih =>
      rw [List.cons_append, Disciplined, Disciplined, ih, and_assoc]
      rfl

theorem owns_release (held : Held L) (other lock : L) :
    ((LockOp.release other).apply held).owns lock =
      (!decide (other = lock) && held.owns lock) := by
  simp only [LockOp.apply, Held.owns, List.any_filter]
  by_cases same : other = lock
  · subst same
    simp
  · rw [Bool.eq_iff_iff]
    simp only [same, List.any_eq_true, decide_false, Bool.not_false, Bool.true_and,
      Bool.and_eq_true, decide_eq_true_eq]
    constructor
    · intro found
      obtain ⟨own, member, -, isLock⟩ := found
      exact ⟨own, member, isLock⟩
    · intro found
      obtain ⟨own, member, isLock⟩ := found
      exact ⟨own, member, fun equal => same (equal.symm.trans isLock), isLock⟩

theorem LockOp.Allowed.counts {held : Held L} {op : LockOp L} (allowed : op.Allowed held)
    (lock : L) :
    (op.acquires lock).toNat + (held.owns lock).toNat =
      (op.releases lock).toNat + ((op.apply held).owns lock).toNat := by
  cases op with
  | acquire other mode =>
      simp only [LockOp.Allowed] at allowed
      by_cases same : other = lock
      · subst same
        simp [LockOp.acquires, LockOp.releases, LockOp.apply, allowed]
      · simp [LockOp.acquires, LockOp.releases, LockOp.apply, same]
  | release other =>
      simp only [LockOp.Allowed] at allowed
      rw [owns_release]
      by_cases same : other = lock
      · subst same
        simp [LockOp.acquires, LockOp.releases, allowed]
      · simp [LockOp.acquires, LockOp.releases, same]
  | modify guard => rfl

theorem Disciplined.counts {held : Held L} {ops : List (LockOp L)}
    (disciplined : Disciplined held ops) (lock : L) :
    ops.countP (LockOp.acquires lock) + (held.owns lock).toNat =
      ops.countP (LockOp.releases lock) + ((heldAfter held ops).owns lock).toNat := by
  induction ops generalizing held with
  | nil => rfl
  | cons op rest ih =>
      obtain ⟨allowed, later⟩ := disciplined
      have first := allowed.counts lock
      have counts := ih later
      have tally : ∀ b : Bool, b.toNat = if b = true then 1 else 0 := by decide
      rw [tally (op.acquires lock), tally (op.releases lock)] at first
      change _ = _ + ((heldAfter (op.apply held) rest).owns lock).toNat
      rw [List.countP_cons, List.countP_cons]
      omega

theorem disciplined_iff (held : Held L) (ops : List (LockOp L)) :
    Disciplined held ops ↔ ∀ before op later, ops = before ++ op :: later →
      op.Allowed (heldAfter held before) := by
  constructor
  · intro disciplined before op later split
    subst split
    exact ((disciplined_append held before _).mp disciplined).2.1
  · intro allowed
    induction ops generalizing held with
    | nil => trivial
    | cons op rest ih =>
        refine ⟨allowed [] op rest rfl, ih _ ?_⟩
        intro before next later split
        exact allowed (op :: before) next later (by rw [split]; rfl)

theorem Disciplined.free_iff {ops : List (LockOp L)} (disciplined : Disciplined [] ops) :
    heldAfter [] ops = [] ↔
      ∀ lock, ops.countP (LockOp.acquires lock) = ops.countP (LockOp.releases lock) := by
  constructor
  · intro none_left lock
    have counts := disciplined.counts lock
    rw [none_left] at counts
    exact counts
  · intro balanced
    cases ends : heldAfter [] ops with
    | nil => rfl
    | cons own rest =>
        have counts := disciplined.counts own.1
        rw [balanced own.1, ends] at counts
        simp [Held.owns] at counts

/-! ## Paths -/

structure Path (L Failure Result : Type) where
  ops : List (LockOp L)
  result : Except Failure Result

namespace Path

variable {Failure First Result : Type}

instance : Monad (Path L Failure) where
  pure result := ⟨[], .ok result⟩
  bind path next :=
    match path.result with
    | .error failure => ⟨path.ops, .error failure⟩
    | .ok result => ⟨path.ops ++ (next result).ops, (next result).result⟩

def op (op : LockOp L) : Path L Failure Unit := ⟨[op], .ok ()⟩

def lift (result : Except Failure Result) : Path L Failure Result := ⟨[], result⟩

omit [DecidableEq L] in
theorem result_lift (result : Except Failure Result) :
    (lift result : Path L Failure Result).result = result := rfl

omit [DecidableEq L] in
theorem result_bind (path : Path L Failure First) (next : First → Path L Failure Result) :
    (path >>= next).result = path.result >>= fun first => (next first).result := by
  cases ended : path.result <;> simp [bind, ended, Except.bind]

omit [DecidableEq L] in
theorem result_op_bind (op : LockOp L) (next : Unit → Path L Failure Result) :
    (Path.op op >>= next).result = (next ()).result := rfl

omit [DecidableEq L] in
theorem bind_pure (path : Path L Failure Result) : path >>= pure = path := by
  rcases path with ⟨ops, failure | result⟩
  · rfl
  · simp [bind, pure]

omit [DecidableEq L] in
theorem bind_assoc {Second : Type} (path : Path L Failure First)
    (next : First → Path L Failure Second) (last : Second → Path L Failure Result) :
    path >>= next >>= last = path >>= fun first => next first >>= last := by
  cases ended : path.result with
  | error failure => simp [bind, ended]
  | ok first =>
      cases later : (next first).result with
      | error failure => simp [bind, ended, later]
      | ok second => simp [bind, ended, later, List.append_assoc]

/-- A path that starts with these locks is disciplined, and if it returns it has
those of the end. -/
def Good (held final : Held L) (path : Path L Failure Result) : Prop :=
  Disciplined held path.ops ∧ ∀ result, path.result = .ok result → heldAfter held path.ops = final

/-- Every operation of the path is allowed where it comes, and if the path returns
it has given back each lock as often as it took it. -/
structure Orderly (path : Path L Failure Result) : Prop where
  allowed : ∀ before op later, path.ops = before ++ op :: later →
    op.Allowed (heldAfter [] before)
  balanced : ∀ result, path.result = .ok result → ∀ lock,
    path.ops.countP (LockOp.acquires lock) = path.ops.countP (LockOp.releases lock)

theorem good_iff_orderly (path : Path L Failure Result) : path.Good [] [] ↔ path.Orderly := by
  constructor
  · intro good
    exact ⟨(disciplined_iff _ _).mp good.1, fun result ended =>
      good.1.free_iff.mp (good.2 result ended)⟩
  · intro orderly
    have disciplined := (disciplined_iff _ _).mpr orderly.allowed
    exact ⟨disciplined, fun result ended => disciplined.free_iff.mpr (orderly.balanced result ended)⟩

theorem good_pure (held final : Held L) (result : Result) :
    (pure result : Path L Failure Result).Good held final ↔ held = final :=
  ⟨fun good => good.2 result rfl, fun ends => ⟨trivial, fun _ _ => ends⟩⟩

theorem good_lift (held final : Held L) (result : Except Failure Result) :
    (lift result : Path L Failure Result).Good held final ↔
      ∀ value, result = .ok value → held = final :=
  ⟨fun good => good.2, fun ends => ⟨trivial, ends⟩⟩

theorem good_bind (held final : Held L) (path : Path L Failure First)
    (next : First → Path L Failure Result) :
    (path >>= next).Good held final ↔ Disciplined held path.ops ∧
      ∀ first, path.result = .ok first → (next first).Good (heldAfter held path.ops) final := by
  cases ended : path.result with
  | error failure => simp [Good, bind, ended]
  | ok first =>
      simp only [Good, bind, ended, disciplined_append, heldAfter_append, Except.ok.injEq,
        forall_eq', and_assoc]

theorem Good.bind {held middle final : Held L} {path : Path L Failure First}
    (good : path.Good held middle) (next : First → Path L Failure Result) :
    (path >>= next).Good held final ↔
      ∀ first, path.result = .ok first → (next first).Good middle final := by
  rw [good_bind]
  constructor
  · intro both first ended
    rw [← good.2 first ended]
    exact both.2 first ended
  · intro later
    refine ⟨good.1, ?_⟩
    intro first ended
    rw [good.2 first ended]
    exact later first ended

theorem good_op_bind (held final : Held L) (op : LockOp L) (next : Unit → Path L Failure Result) :
    (Path.op op >>= next).Good held final ↔
      op.Allowed held ∧ (next ()).Good (op.apply held) final := by
  rw [good_bind]
  constructor
  · intro good
    exact ⟨good.1.1, good.2 () rfl⟩
  · intro good
    exact ⟨⟨good.1, trivial⟩, fun _ _ => good.2⟩

theorem good_lift_bind (held final : Held L) (part : Except Failure First)
    (next : First → Path L Failure Result) :
    (lift part >>= next).Good held final ↔
      ∀ first, part = .ok first → (next first).Good held final := by
  rw [good_bind]
  simp [lift, Disciplined, heldAfter]

theorem good_pure_bind (held final : Held L) (first : First)
    (next : First → Path L Failure Result) :
    ((pure first : Path L Failure First) >>= next).Good held final ↔
      (next first).Good held final := Iff.rfl

end Path

end OaiPmip.Locks
