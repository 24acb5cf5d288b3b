import Mathlib.Data.Nat.ModEq
import Mathlib.Tactic.Common

/-!
# Sums with the carry added back in

Digits of base `m + 1` are added up and what leaves the lowest digit is added to it
again, until one digit is left.  That digit is the sum modulo `m`, with `m` itself
for the multiples that are not zero.
-/

set_option autoImplicit false

namespace OaiPmip.OnesComplement

def carry (m n : Nat) : Nat := n % (m + 1) + n / (m + 1)

def residue (m n : Nat) : Nat := if n = 0 then 0 else (n - 1) % m + 1

@[simp] theorem residue_zero (m : Nat) : residue m 0 = 0 := rfl

theorem residue_eq_zero {m n : Nat} : residue m n = 0 ↔ n = 0 := by
  by_cases zero : n = 0
  · rw [zero, residue_zero]
  · rw [residue, if_neg zero]
    exact ⟨fun impossible => absurd impossible (Nat.succ_ne_zero _), fun h => absurd h zero⟩

variable {m : Nat}

theorem residue_le (positive : 0 < m) (n : Nat) : residue m n ≤ m := by
  rw [residue]
  split
  · exact Nat.zero_le m
  · exact Nat.mod_lt _ positive

theorem residue_modEq (m n : Nat) : residue m n ≡ n [MOD m] := by
  by_cases zero : n = 0
  · rw [zero, residue_zero]
  · rw [residue, if_neg zero]
    have back : n - 1 + 1 = n := Nat.sub_add_cancel (Nat.pos_of_ne_zero zero)
    have step : (n - 1) % m + 1 ≡ n - 1 + 1 [MOD m] := (Nat.mod_modEq (n - 1) m).add_right 1
    rw [back] at step
    exact step

/-- A digit is known by what it is modulo `m` and by whether it is zero. -/
theorem residue_congr {a b : Nat} (same : a ≡ b [MOD m]) (zero : a = 0 ↔ b = 0) :
    residue m a = residue m b := by
  by_cases none : a = 0
  · rw [none, zero.mp none]
  · have noneB : b ≠ 0 := fun h => none (zero.mpr h)
    rw [residue, if_neg none, residue, if_neg noneB]
    have before : a - 1 ≡ b - 1 [MOD m] := by
      apply Nat.ModEq.add_right_cancel' 1
      rw [Nat.sub_add_cancel (Nat.pos_of_ne_zero none),
        Nat.sub_add_cancel (Nat.pos_of_ne_zero noneB)]
      exact same
    exact congrArg (· + 1) before

theorem residue_of_le {n : Nat} (small : n ≤ m) : residue m n = n := by
  by_cases zero : n = 0
  · rw [zero, residue_zero]
  · rw [residue, if_neg zero, Nat.mod_eq_of_lt (by omega)]
    omega

theorem residue_add_left (a b : Nat) : residue m (residue m a + b) = residue m (a + b) := by
  apply residue_congr
  · exact (residue_modEq m a).add_right b
  · rw [Nat.add_eq_zero_iff, Nat.add_eq_zero_iff, residue_eq_zero]

theorem residue_add_complement (positive : 0 < m) (n : Nat) :
    residue m (n + (m - residue m n)) = m := by
  have below := residue_le positive n
  have whole : residue m n + (m - residue m n) = m := by omega
  rw [← residue_add_left, whole, residue_of_le (le_refl m)]

/-! ## The carries -/

theorem carry_eq (m n : Nat) : n = m * (n / (m + 1)) + carry m n := by
  have split := Nat.div_add_mod n (m + 1)
  rw [Nat.add_mul, Nat.one_mul] at split
  rw [carry]
  omega

theorem carry_le (m n : Nat) : carry m n ≤ n := by
  have whole := carry_eq m n
  omega

theorem carry_eq_zero {n : Nat} : carry m n = 0 ↔ n = 0 := by
  constructor
  · intro zero
    have parts := Nat.add_eq_zero_iff.mp zero
    have whole := Nat.div_add_mod n (m + 1)
    rw [parts.1, parts.2, Nat.mul_zero] at whole
    exact whole.symm
  · intro zero
    have below := carry_le m n
    omega

theorem residue_carry (m n : Nat) : residue m (carry m n) = residue m n := by
  apply residue_congr
  · have whole : n % m = (m * (n / (m + 1)) + carry m n) % m :=
      congrArg (· % m) (carry_eq m n)
    rw [Nat.ModEq, whole, Nat.mul_add_mod]
  · exact carry_eq_zero

/-- At most as many carries as there is fuel; `none` is a sum still too large. -/
def carries (m : Nat) : Nat → Nat → Option Nat
  | 0, _ => none
  | fuel + 1, n => if m < n then carries m fuel (carry m n) else some n

theorem carries_more {fuel more n digit : Nat} (ended : carries m fuel n = some digit)
    (enough : fuel ≤ more) : carries m more n = some digit := by
  induction fuel generalizing n more with
  | zero => cases ended
  | succ fuel ih =>
      obtain ⟨more, rfl⟩ : ∃ k, more = k + 1 := ⟨more - 1, by omega⟩
      rw [carries] at ended ⊢
      split
      · next large =>
          rw [if_pos large] at ended
          exact ih ended (by omega)
      · next small =>
          rw [if_neg small] at ended
          exact ended

/-- A carry of a sum up to `bound` leaves one up to `m + bound / (m + 1)`. -/
theorem carries_succ {fuel bound : Nat}
    (next : ∀ n ≤ m + bound / (m + 1), carries m fuel n = some (residue m n)) :
    ∀ n ≤ bound, carries m (fuel + 1) n = some (residue m n) := by
  intro n small
  rw [carries]
  split
  · have low : n % (m + 1) < m + 1 := Nat.mod_lt _ (Nat.succ_pos m)
    have high : n / (m + 1) ≤ bound / (m + 1) := Nat.div_le_div_right small
    have below : carry m n ≤ m + bound / (m + 1) := by
      rw [carry]
      omega
    rw [next (carry m n) below, residue_carry]
  · next digit => rw [residue_of_le (Nat.le_of_not_lt digit)]

theorem carries_two (positive : 0 < m) : ∀ n ≤ m + 1, carries m 2 n = some (residue m n) := by
  intro n small
  rw [carries]
  split
  · next large =>
      have same : n = m + 1 := by omega
      have one : carry m n = 1 := by
        rw [carry, same, Nat.mod_self, Nat.div_self (Nat.succ_pos m)]
      rw [← residue_carry, one, carries, if_neg (by omega), residue_of_le positive]
  · next digit => rw [residue_of_le (Nat.le_of_not_lt digit)]

/-! ## Digits with their halves exchanged -/

/-- The two digits of base `b` of a digit of base `b * b` change places. -/
def swap (b n : Nat) : Nat := n / b + n % b * b

section Swap
variable {b : Nat}

theorem swap_modEq (square : b * b = m + 1) (n : Nat) : swap b n ≡ b * n [MOD m] := by
  have whole : b * n = m * (n / b) + swap b n := by
    calc b * n = b * (b * (n / b) + n % b) := by rw [Nat.div_add_mod]
      _ = b * b * (n / b) + n % b * b := by rw [Nat.mul_add, Nat.mul_assoc, Nat.mul_comm b (n % b)]
      _ = m * (n / b) + swap b n := by rw [square, Nat.add_mul, Nat.one_mul, swap, Nat.add_assoc]
  rw [Nat.ModEq, whole, Nat.mul_add_mod]

theorem swap_eq_zero (positive : 0 < b) {n : Nat} : swap b n = 0 ↔ n = 0 := by
  constructor
  · intro zero
    have parts := Nat.add_eq_zero_iff.mp zero
    have low := (Nat.mul_eq_zero.mp parts.2).resolve_right (Nat.ne_of_gt positive)
    have whole := Nat.div_add_mod n b
    rw [parts.1, low, Nat.mul_zero] at whole
    exact whole.symm
  · intro zero
    rw [zero, swap, Nat.zero_div, Nat.zero_mod, Nat.zero_mul]

theorem swap_digits {q r : Nat} (low : r < b) : swap b (b * q + r) = q + r * b := by
  rw [swap, Nat.mul_add_div (by omega), Nat.div_eq_of_lt low, Nat.mul_add_mod,
    Nat.mod_eq_of_lt low, Nat.add_zero]

theorem halves (square : b * b = m + 1) {n : Nat} (digit : n ≤ m) :
    ∃ q < b, ∃ r < b, n = b * q + r := by
  have inside : n < b * b := by omega
  have positive : 0 < b := Nat.pos_of_mul_pos_left (Nat.zero_lt_of_lt inside)
  exact ⟨n / b, Nat.div_lt_of_lt_mul inside, n % b, Nat.mod_lt _ positive,
    (Nat.div_add_mod n b).symm⟩

theorem swap_le (square : b * b = m + 1) {n : Nat} (digit : n ≤ m) : swap b n ≤ m := by
  obtain ⟨q, inQ, r, inR, whole⟩ := halves square digit
  have top : (r + 1) * b ≤ b * b := Nat.mul_le_mul_right b inR
  rw [Nat.add_mul, Nat.one_mul] at top
  rw [whole, swap_digits inR]
  omega

theorem swap_complement (square : b * b = m + 1) {n : Nat} (digit : n ≤ m) :
    swap b (m - n) = m - swap b n := by
  obtain ⟨q, inQ, r, inR, whole⟩ := halves square digit
  obtain ⟨q', isQ⟩ : ∃ q', q + q' + 1 = b := ⟨b - q - 1, by omega⟩
  obtain ⟨r', isR⟩ : ∃ r', r + r' + 1 = b := ⟨b - r - 1, by omega⟩
  have highs : b * q + b * q' + b = b * b := by
    rw [← Nat.mul_add, ← Nat.mul_succ]
    exact congrArg (b * ·) isQ
  have lows : r * b + r' * b + b = b * b := by
    rw [← Nat.add_mul, ← Nat.succ_mul]
    exact congrArg (· * b) isR
  have rest : m - n = b * q' + r' := by omega
  rw [rest, whole, swap_digits (by omega), swap_digits inR]
  omega

theorem sum_swap_modEq (square : b * b = m + 1) (digits : List Nat) :
    (digits.map (swap b)).sum ≡ b * digits.sum [MOD m] := by
  induction digits with
  | nil => exact Nat.ModEq.refl _
  | cons n rest ih =>
      rw [List.map_cons, List.sum_cons, List.sum_cons, Nat.mul_add]
      exact (swap_modEq square n).add ih

theorem sum_swap_eq_zero (positive : 0 < b) (digits : List Nat) :
    (digits.map (swap b)).sum = 0 ↔ digits.sum = 0 := by
  induction digits with
  | nil => exact Iff.rfl
  | cons n rest ih =>
      rw [List.map_cons, List.sum_cons, List.sum_cons, Nat.add_eq_zero_iff, Nat.add_eq_zero_iff,
        swap_eq_zero positive, ih]

theorem residue_sum_swap (square : b * b = m + 1) (positive : 0 < m) (digits : List Nat) :
    residue m (digits.map (swap b)).sum = swap b (residue m digits.sum) := by
  have base : 0 < b := by
    rcases Nat.eq_zero_or_pos b with zero | more
    · rw [zero] at square
      omega
    · exact more
  have digit := swap_le square (residue_le positive digits.sum)
  rw [← residue_of_le digit]
  apply residue_congr
  · exact (sum_swap_modEq square digits).trans
      (((residue_modEq m digits.sum).mul_left b).symm.trans (swap_modEq square _).symm)
  · rw [sum_swap_eq_zero base, swap_eq_zero base, residue_eq_zero]

end Swap

end OaiPmip.OnesComplement
