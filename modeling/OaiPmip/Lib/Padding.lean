import Mathlib.Data.Int.ModEq
import Mathlib.Data.List.Basic
import Mathlib.Tactic.Common

/-!
# Blocks at aligned offsets

A list of blocks is laid out from an offset on, each behind the padding that its
alignment asks for.  The padding is at most one block, of the least size that
will do, and padding what is padded already adds nothing.
-/

set_option autoImplicit false

namespace OaiPmip.Padding

/-! ## Alignments -/

/-- The offsets `modulus * n + residue`. -/
structure AlignRule where
  modulus : Nat
  residue : Nat
  inside : residue < modulus
  deriving DecidableEq

namespace AlignRule

def anywhere : AlignRule := ⟨1, 0, Nat.zero_lt_one⟩

def ofFin {modulus : Nat} (residue : Fin modulus) : AlignRule := ⟨modulus, residue, residue.isLt⟩

def Allows (rule : AlignRule) (offset : Nat) : Prop := offset % rule.modulus = rule.residue

instance (rule : AlignRule) (offset : Nat) : Decidable (rule.Allows offset) :=
  inferInstanceAs (Decidable (offset % rule.modulus = rule.residue))

def gap (rule : AlignRule) (offset : Nat) : Nat :=
  (((rule.residue : Int) - offset) % rule.modulus).toNat

variable (rule : AlignRule) (offset : Nat)

theorem modulus_pos : 0 < rule.modulus := Nat.lt_of_le_of_lt (Nat.zero_le _) rule.inside

theorem gap_cast : (rule.gap offset : Int) = ((rule.residue : Int) - offset) % rule.modulus := by
  have positive : (rule.modulus : Int) ≠ 0 := by
    have := rule.modulus_pos
    omega
  exact Int.toNat_of_nonneg (Int.emod_nonneg _ positive)

theorem gap_lt : rule.gap offset < rule.modulus := by
  have cast := rule.gap_cast offset
  have bound : ((rule.residue : Int) - offset) % rule.modulus < rule.modulus :=
    Int.emod_lt_of_pos _ (by exact_mod_cast rule.modulus_pos)
  omega

theorem allows_iff_cast :
    rule.Allows offset ↔ (offset : Int) ≡ rule.residue [ZMOD rule.modulus] := by
  have small : ((rule.residue : Int)) % rule.modulus = rule.residue := by
    exact_mod_cast Nat.mod_eq_of_lt rule.inside
  rw [Int.ModEq, small, Allows]
  exact_mod_cast Iff.rfl

theorem gap_allows : rule.Allows (offset + rule.gap offset) := by
  rw [allows_iff_cast, Nat.cast_add, gap_cast]
  have reached : (offset : Int) + (rule.residue - offset) % rule.modulus ≡
      offset + (rule.residue - offset) [ZMOD rule.modulus] :=
    (Int.mod_modEq _ _).add_left _
  simpa using reached

variable {offset}

theorem gap_le {size : Nat} (allowed : rule.Allows (offset + size)) : rule.gap offset ≤ size := by
  rw [allows_iff_cast, Nat.cast_add] at allowed
  have same : (size : Int) ≡ rule.residue - offset [ZMOD rule.modulus] := by
    have shifted := allowed.sub_right (offset : Int)
    simpa using shifted
  have least : ((rule.residue : Int) - offset) % rule.modulus ≤ size := by
    rw [← same]
    exact_mod_cast Nat.mod_le size rule.modulus
  have cast := rule.gap_cast offset
  omega

theorem gap_eq_zero (allowed : rule.Allows offset) : rule.gap offset = 0 :=
  Nat.le_zero.mp (@gap_le rule offset 0 allowed)

theorem anywhere_gap (offset : Nat) : anywhere.gap offset = 0 :=
  anywhere.gap_eq_zero (Nat.mod_one offset)

end AlignRule

/-- The padding in front of a block.  Without a rule it is that of the block
before it. -/
def padFor (offset carried : Nat) : Option AlignRule → Nat
  | some alignment => alignment.gap offset
  | none => carried

/-! ## Layouts -/

section Layout
variable {α : Type} (size : α → Nat) (rule : α → Option AlignRule) (mkPad : Nat → α)

/-- The blocks from an offset on; `carried` is the padding of the block before. -/
def padWith (offset carried : Nat) : List α → List α
  | [] => []
  | block :: rest =>
      let pad := padFor offset carried (rule block)
      let rest := block :: padWith (offset + pad + size block) pad rest
      if pad > 0 then mkPad pad :: rest else rest

/-- Blocks that all have a rule, each at an offset that it allows. -/
inductive LaidOut : Nat → List α → List α → Prop
  | nil (offset : Nat) : LaidOut offset [] []
  | placed {offset : Nat} {block : α} {rest out : List α} (alignment : AlignRule)
      (ruled : rule block = some alignment) (allowed : alignment.Allows offset)
      (later : LaidOut (offset + size block) rest out) :
      LaidOut offset (block :: rest) (block :: out)
  | padded {offset : Nat} {block : α} {rest out : List α} (alignment : AlignRule)
      (ruled : rule block = some alignment) (missing : 0 < alignment.gap offset)
      (later : LaidOut (offset + alignment.gap offset + size block) rest out) :
      LaidOut offset (block :: rest) (mkPad (alignment.gap offset) :: block :: out)

variable {size rule mkPad}

theorem padWith_laidOut (offset carried : Nat) (blocks : List α)
    (ruled : ∀ block ∈ blocks, (rule block).isSome = true) :
    LaidOut size rule mkPad offset blocks (padWith size rule mkPad offset carried blocks) := by
  induction blocks generalizing offset carried with
  | nil => exact .nil offset
  | cons block rest ih =>
      obtain ⟨alignment, isRule⟩ := Option.isSome_iff_exists.mp (ruled block List.mem_cons_self)
      have later := fun offset carried =>
        ih offset carried fun other member => ruled other (List.mem_cons_of_mem _ member)
      simp only [padWith, isRule, padFor]
      split
      · rename_i missing
        exact .padded alignment isRule missing (later _ _)
      · rename_i enough
        have zero : alignment.gap offset = 0 := Nat.eq_zero_of_not_pos enough
        have allowed := alignment.gap_allows offset
        rw [zero, Nat.add_zero] at allowed
        rw [zero, Nat.add_zero]
        exact .placed alignment isRule allowed (later _ _)

variable {offset : Nat} {blocks out : List α}

theorem LaidOut.kept (isPad : α → Bool) (laid : LaidOut size rule mkPad offset blocks out)
    (pads : ∀ n, 0 < n → isPad (mkPad n) = true) (others : ∀ block ∈ blocks, isPad block = false) :
    out.filter (fun x => !isPad x) = blocks := by
  induction laid with
  | nil => rfl
  | placed alignment ruled allowed later ih =>
      have rest := ih fun other member => others other (List.mem_cons_of_mem _ member)
      simp [others _ List.mem_cons_self, rest]
  | padded alignment ruled missing later ih =>
      have rest := ih fun other member => others other (List.mem_cons_of_mem _ member)
      simp [pads _ missing, others _ List.mem_cons_self, rest]

theorem LaidOut.mem (laid : LaidOut size rule mkPad offset blocks out) {x : α} (member : x ∈ out) :
    x ∈ blocks ∨ ∃ n, ∃ block ∈ blocks, ∃ alignment, rule block = some alignment ∧
      0 < n ∧ n < alignment.modulus ∧ x = mkPad n := by
  induction laid with
  | nil => cases member
  | placed alignment ruled allowed later ih =>
      rcases List.mem_cons.mp member with rfl | member
      · exact Or.inl List.mem_cons_self
      · rcases ih member with isBlock | ⟨n, block, isBlock, pad⟩
        · exact Or.inl (List.mem_cons_of_mem _ isBlock)
        · exact Or.inr ⟨n, block, List.mem_cons_of_mem _ isBlock, pad⟩
  | @padded offset first rest out alignment ruled missing later ih =>
      rcases List.mem_cons.mp member with rfl | member
      · exact Or.inr ⟨_, first, List.mem_cons_self, alignment, ruled, missing,
          alignment.gap_lt offset, rfl⟩
      · rcases List.mem_cons.mp member with rfl | member
        · exact Or.inl List.mem_cons_self
        · rcases ih member with isBlock | ⟨n, block, isBlock, pad⟩
          · exact Or.inl (List.mem_cons_of_mem _ isBlock)
          · exact Or.inr ⟨n, block, List.mem_cons_of_mem _ isBlock, pad⟩

theorem LaidOut.getLast (laid : LaidOut size rule mkPad offset blocks out) :
    out.getLast? = blocks.getLast? := by
  induction laid with
  | nil => rfl
  | placed alignment ruled allowed later ih => rw [List.getLast?_cons, List.getLast?_cons, ih]
  | padded alignment ruled missing later ih =>
      rw [List.getLast?_cons_cons, List.getLast?_cons, List.getLast?_cons, ih]

theorem LaidOut.allows (laid : LaidOut size rule mkPad offset blocks out)
    (sized : ∀ n, 0 < n → size (mkPad n) = n) (unruled : ∀ n, 0 < n → rule (mkPad n) = none)
    {before after : List α} {block : α} (is : out = before ++ block :: after)
    {alignment : AlignRule} (ruled : rule block = some alignment) :
    alignment.Allows (offset + (before.map size).sum) := by
  induction laid generalizing before with
  | nil => simp at is
  | @placed offset first rest out own isRule allowed later ih =>
      cases before with
      | nil =>
          obtain ⟨rfl, rfl⟩ := List.cons.inj is
          rw [isRule] at ruled
          cases ruled
          exact allowed
      | cons head before =>
          obtain ⟨rfl, rfl⟩ := List.cons.inj is
          have found := ih rfl
          rwa [Nat.add_assoc] at found
  | @padded offset first rest out own isRule missing later ih =>
      cases before with
      | nil =>
          obtain ⟨rfl, _⟩ := List.cons.inj is
          rw [unruled _ missing] at ruled
          cases ruled
      | cons head before =>
          obtain ⟨rfl, tail⟩ := List.cons.inj is
          rw [List.map_cons, List.sum_cons, sized _ missing]
          cases before with
          | nil =>
              obtain ⟨rfl, _⟩ := List.cons.inj tail
              rw [isRule] at ruled
              cases ruled
              exact alignment.gap_allows offset
          | cons head before =>
              obtain ⟨rfl, rfl⟩ := List.cons.inj tail
              have found := ih rfl
              rwa [Nat.add_assoc, Nat.add_assoc] at found

theorem LaidOut.pads (laid : LaidOut size rule mkPad offset blocks out)
    (sized : ∀ n, 0 < n → size (mkPad n) = n)
    {before after : List α} {x : α} (is : out = before ++ x :: after) (unruled : rule x = none) :
    ∃ n block rest alignment, 0 < n ∧ n < alignment.modulus ∧ x = mkPad n ∧
      after = block :: rest ∧ rule block = some alignment ∧
      alignment.Allows (offset + (before.map size).sum + n) ∧
      ∀ less < n, ¬ alignment.Allows (offset + (before.map size).sum + less) := by
  induction laid generalizing before with
  | nil => simp at is
  | @placed offset first rest out own isRule allowed later ih =>
      cases before with
      | nil =>
          obtain ⟨rfl, _⟩ := List.cons.inj is
          rw [isRule] at unruled
          cases unruled
      | cons head before =>
          obtain ⟨rfl, rfl⟩ := List.cons.inj is
          have found := ih rfl
          rwa [Nat.add_assoc] at found
  | @padded offset first rest out own isRule missing later ih =>
      cases before with
      | nil =>
          obtain ⟨rfl, rfl⟩ := List.cons.inj is
          refine ⟨_, first, out, own, missing, own.gap_lt offset, rfl, rfl, isRule,
            own.gap_allows offset, ?_⟩
          intro less fewer allowed
          exact Nat.not_le.mpr fewer (own.gap_le allowed)
      | cons head before =>
          obtain ⟨rfl, tail⟩ := List.cons.inj is
          rw [List.map_cons, List.sum_cons, sized _ missing]
          cases before with
          | nil =>
              obtain ⟨rfl, _⟩ := List.cons.inj tail
              rw [isRule] at unruled
              cases unruled
          | cons head before =>
              obtain ⟨rfl, rfl⟩ := List.cons.inj tail
              have found := ih rfl
              rwa [Nat.add_assoc, Nat.add_assoc] at found

theorem LaidOut.again (laid : LaidOut size rule mkPad offset blocks out)
    (sized : ∀ n, 0 < n → size (mkPad n) = n) (unruled : ∀ n, 0 < n → rule (mkPad n) = none) :
    padWith size rule mkPad offset 0 out = out := by
  induction laid with
  | nil => rfl
  | placed own isRule allowed later ih =>
      simp [padWith, padFor, isRule, own.gap_eq_zero allowed, ih]
  | @padded offset first rest out own isRule missing later ih =>
      -- the pad itself is given the padding of the block before it, which is none
      have settled := own.gap_eq_zero (own.gap_allows offset)
      simp [padWith, padFor, unruled _ missing, sized _ missing, isRule, settled, ih]

end Layout

end OaiPmip.Padding
