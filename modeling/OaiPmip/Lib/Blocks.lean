import Mathlib.Data.List.Basic
import Mathlib.Tactic.Common

/-!
# Texts taken in by blocks

A state takes in a text one block of `n` elements after the other, as a hash
function does; what does not fill a block yet is pending.  `Absorbed` says of a
state and of what is pending that they are those of a text, however the text
arrived.
-/

set_option autoImplicit false

namespace OaiPmip.Blocks

variable {State α : Type} {n : Nat} {compress : State → List α → State}

/-- The state after the first `k` blocks of a text. -/
def chain (n : Nat) (compress : State → List α → State) : Nat → State → List α → State
  | 0, s, _ => s
  | k + 1, s, text => chain n compress k (compress s (text.take n)) (text.drop n)

def absorbAll (n : Nat) (compress : State → List α → State) (s : State) (text : List α) : State :=
  chain n compress (text.length / n) s text

theorem chain_succ (k : Nat) (s : State) (text : List α) :
    chain n compress (k + 1) s text =
      compress (chain n compress k s text) ((text.drop (n * k)).take n) := by
  induction k generalizing s text with
  | zero => rw [Nat.mul_zero, List.drop_zero]; rfl
  | succ k ih =>
      rw [chain, ih, chain, List.drop_drop]
      have moved : n + n * k = n * (k + 1) := by rw [Nat.mul_succ, Nat.add_comm]
      rw [moved]

theorem chain_append {k : Nat} {s : State} {text : List α} (more : List α)
    (whole : n * k ≤ text.length) :
    chain n compress k s (text ++ more) = chain n compress k s text := by
  induction k generalizing s text with
  | zero => rfl
  | succ k ih =>
      have first : n ≤ text.length := by
        rw [Nat.mul_succ] at whole
        omega
      have later : n * k ≤ (text.drop n).length := by
        rw [Nat.mul_succ] at whole
        rw [List.length_drop]
        omega
      rw [chain, chain, List.take_append_of_le_length first,
        List.drop_append_of_le_length first, ih later]

/-! ## Texts that arrive in pieces -/

/-- From the state `init`, `k` blocks of the text led to `s`, and `pending` is behind them. -/
structure Absorbed (n : Nat) (compress : State → List α → State) (init : State) (text : List α)
    (k : Nat) (s : State) (pending : List α) : Prop where
  whole : n * k ≤ text.length
  chained : chain n compress k init text = s
  rest : text.drop (n * k) = pending

namespace Absorbed

variable {init s : State} {text pending : List α} {k : Nat}

theorem nothing : Absorbed n compress init [] 0 init [] := ⟨by simp, rfl, by simp⟩

theorem length (absorbed : Absorbed n compress init text k s pending) :
    text.length = n * k + pending.length := by
  have whole := absorbed.whole
  rw [← absorbed.rest, List.length_drop]
  omega

theorem append (absorbed : Absorbed n compress init text k s pending) (more : List α) :
    Absorbed n compress init (text ++ more) k s (pending ++ more) := by
  refine ⟨?_, ?_, ?_⟩
  · rw [List.length_append]
    exact Nat.le_add_right_of_le absorbed.whole
  · rw [chain_append more absorbed.whole, absorbed.chained]
  · rw [List.drop_append_of_le_length absorbed.whole, absorbed.rest]

theorem block (absorbed : Absorbed n compress init text k s pending) (full : pending.length = n) :
    Absorbed n compress init text (k + 1) (compress s pending) [] := by
  have size : text.length = n * (k + 1) := by rw [absorbed.length, full, Nat.mul_succ]
  refine ⟨Nat.le_of_eq size.symm, ?_, ?_⟩
  · rw [chain_succ, absorbed.chained, absorbed.rest, List.take_of_length_le (Nat.le_of_eq full)]
  · rw [← size, List.drop_length]

theorem all (absorbed : Absorbed n compress init text k s []) (positive : 0 < n) :
    absorbAll n compress init text = s := by
  have size : text.length = n * k := absorbed.length
  rw [absorbAll, size, Nat.mul_div_cancel_left k positive, absorbed.chained]

end Absorbed

end OaiPmip.Blocks
