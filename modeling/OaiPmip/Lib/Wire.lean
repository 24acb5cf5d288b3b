import Mathlib.Algebra.Ring.Int.Defs
import Mathlib.Algebra.Ring.Nat
import Mathlib.Data.List.Basic
import Mathlib.Tactic.Common

/-!
# Bytes in memory

Words of sixteen and thirty-two bits as a host of either byte order stores and
loads them, the conversion to network order, and the bytes that memory holds
from an address on.
-/

set_option autoImplicit false

namespace OaiPmip.Wire

inductive ByteOrder where
  | little
  | big
  deriving DecidableEq

/-! ## Words -/

def swap16 (x : UInt16) : UInt16 := x <<< 8 ||| x >>> 8

/-- `htons` and `ntohs` of a host. -/
def ByteOrder.net16 : ByteOrder → UInt16 → UInt16
  | .little, x => swap16 x
  | .big, x => x

def join16 (high low : UInt8) : UInt16 := low.toUInt16 ||| high.toUInt16 <<< 8

def ByteOrder.load16 : ByteOrder → UInt8 → UInt8 → UInt16
  | .little, first, second => join16 second first
  | .big, first, second => join16 first second

def ByteOrder.store16 : ByteOrder → UInt16 → List UInt8
  | .little, x => [x.toUInt8, (x >>> 8).toUInt8]
  | .big, x => [(x >>> 8).toUInt8, x.toUInt8]

def join32 (d c b a : UInt8) : UInt32 :=
  a.toUInt32 ||| b.toUInt32 <<< 8 ||| c.toUInt32 <<< 16 ||| d.toUInt32 <<< 24

def ByteOrder.load32 : ByteOrder → UInt8 → UInt8 → UInt8 → UInt8 → UInt32
  | .little, a, b, c, d => join32 d c b a
  | .big, a, b, c, d => join32 a b c d

def ByteOrder.store32 : ByteOrder → UInt32 → List UInt8
  | .little, x => [x.toUInt8, (x >>> 8).toUInt8, (x >>> 16).toUInt8, (x >>> 24).toUInt8]
  | .big, x => [(x >>> 24).toUInt8, (x >>> 16).toUInt8, (x >>> 8).toUInt8, x.toUInt8]

theorem lor_shiftLeft {low high shift : Nat} (fits : low < 2 ^ shift) :
    low ||| high <<< shift = low + high * 2 ^ shift := by
  rw [Nat.or_comm, ← Nat.shiftLeft_add_eq_or_of_lt fits, Nat.shiftLeft_eq, Nat.add_comm]

theorem join16_toNat (high low : UInt8) :
    (join16 high low).toNat = low.toNat + high.toNat * 2 ^ 8 := by
  have isLow := low.toNat_lt
  have isHigh := high.toNat_lt
  have shifted : high.toNat <<< 8 % 2 ^ 16 = high.toNat <<< 8 := by
    rw [Nat.shiftLeft_eq]
    omega
  change low.toNat ||| high.toNat <<< 8 % 2 ^ 16 = _
  rw [shifted]
  exact lor_shiftLeft isLow

theorem swap16_toNat (x : UInt16) :
    (swap16 x).toNat = x.toNat / 2 ^ 8 + x.toNat % 2 ^ 8 * 2 ^ 8 := by
  have bound := x.toNat_lt
  have shifted : x.toNat <<< 8 % 2 ^ 16 = (x.toNat % 2 ^ 8) <<< 8 := by
    rw [Nat.shiftLeft_eq, Nat.shiftLeft_eq]
    omega
  have low : x.toNat >>> 8 < 2 ^ 8 := by
    rw [Nat.shiftRight_eq_div_pow]
    omega
  change x.toNat <<< 8 % 2 ^ 16 ||| x.toNat >>> 8 = _
  rw [shifted, Nat.or_comm, lor_shiftLeft low, Nat.shiftRight_eq_div_pow]

theorem swap16_swap16 (x : UInt16) : swap16 (swap16 x) = x := by
  apply UInt16.toNat_inj.mp
  have bound := x.toNat_lt
  rw [swap16_toNat, swap16_toNat]
  omega

theorem net16_net16 (order : ByteOrder) (x : UInt16) : order.net16 (order.net16 x) = x := by
  cases order with
  | little => exact swap16_swap16 x
  | big => rfl

theorem join16_bytes (x : UInt16) : join16 (x >>> 8).toUInt8 x.toUInt8 = x := by
  apply UInt16.toNat_inj.mp
  have bound := x.toNat_lt
  have high : (x >>> 8).toUInt8.toNat = x.toNat / 2 ^ 8 % 2 ^ 8 := by
    change x.toNat >>> 8 % 2 ^ 8 = _
    rw [Nat.shiftRight_eq_div_pow]
  have low : x.toUInt8.toNat = x.toNat % 2 ^ 8 := rfl
  rw [join16_toNat, high, low]
  omega

theorem join32_toNat (d c b a : UInt8) : (join32 d c b a).toNat =
    a.toNat + b.toNat * 2 ^ 8 + c.toNat * 2 ^ 16 + d.toNat * 2 ^ 24 := by
  have isA := a.toNat_lt
  have isB := b.toNat_lt
  have isC := c.toNat_lt
  have isD := d.toNat_lt
  have shiftB : b.toNat <<< 8 % 2 ^ 32 = b.toNat <<< 8 := by
    rw [Nat.shiftLeft_eq]
    omega
  have shiftC : c.toNat <<< 16 % 2 ^ 32 = c.toNat <<< 16 := by
    rw [Nat.shiftLeft_eq]
    omega
  have shiftD : d.toNat <<< 24 % 2 ^ 32 = d.toNat <<< 24 := by
    rw [Nat.shiftLeft_eq]
    omega
  change a.toNat ||| b.toNat <<< 8 % 2 ^ 32 ||| c.toNat <<< 16 % 2 ^ 32 |||
    d.toNat <<< 24 % 2 ^ 32 = _
  rw [shiftB, shiftC, shiftD, lor_shiftLeft isA]
  have fitsB : a.toNat + b.toNat * 2 ^ 8 < 2 ^ 16 := by omega
  rw [lor_shiftLeft fitsB]
  have fitsC : a.toNat + b.toNat * 2 ^ 8 + c.toNat * 2 ^ 16 < 2 ^ 24 := by omega
  rw [lor_shiftLeft fitsC]

theorem join32_bytes (x : UInt32) : join32 (x >>> 24).toUInt8 (x >>> 16).toUInt8
    (x >>> 8).toUInt8 x.toUInt8 = x := by
  apply UInt32.toNat_inj.mp
  have bound := x.toNat_lt
  have byte : ∀ shift : Nat, x.toNat >>> shift % 2 ^ 8 = x.toNat / 2 ^ shift % 2 ^ 8 := by
    intro shift
    rw [Nat.shiftRight_eq_div_pow]
  have b : (x >>> 8).toUInt8.toNat = x.toNat / 2 ^ 8 % 2 ^ 8 := byte 8
  have c : (x >>> 16).toUInt8.toNat = x.toNat / 2 ^ 16 % 2 ^ 8 := byte 16
  have d : (x >>> 24).toUInt8.toNat = x.toNat / 2 ^ 24 % 2 ^ 8 := byte 24
  have a : x.toUInt8.toNat = x.toNat % 2 ^ 8 := rfl
  rw [join32_toNat, a, b, c, d]
  omega

def swap32 (x : UInt32) : UInt32 :=
  join32 x.toUInt8 (x >>> 8).toUInt8 (x >>> 16).toUInt8 (x >>> 24).toUInt8

/-- `htonl` and `ntohl` of a host. -/
def ByteOrder.net32 : ByteOrder → UInt32 → UInt32
  | .little, x => swap32 x
  | .big, x => x

theorem store32_join32 (d c b a : UInt8) :
    ByteOrder.little.store32 (join32 d c b a) = [a, b, c, d] := by
  have isA := a.toNat_lt
  have isB := b.toNat_lt
  have isC := c.toNat_lt
  have isD := d.toNat_lt
  have word := join32_toNat d c b a
  have byte : ∀ shift : Nat, (join32 d c b a).toNat >>> shift % 2 ^ 8 =
      (join32 d c b a).toNat / 2 ^ shift % 2 ^ 8 := by
    intro shift
    rw [Nat.shiftRight_eq_div_pow]
  have first : (join32 d c b a).toUInt8 = a := by
    apply UInt8.toNat_inj.mp
    change (join32 d c b a).toNat % 2 ^ 8 = _
    omega
  have second : (join32 d c b a >>> 8).toUInt8 = b := by
    apply UInt8.toNat_inj.mp
    refine (byte 8).trans ?_
    omega
  have third : (join32 d c b a >>> 16).toUInt8 = c := by
    apply UInt8.toNat_inj.mp
    refine (byte 16).trans ?_
    omega
  have fourth : (join32 d c b a >>> 24).toUInt8 = d := by
    apply UInt8.toNat_inj.mp
    refine (byte 24).trans ?_
    omega
  rw [ByteOrder.store32, first, second, third, fourth]

theorem swap32_join32 (d c b a : UInt8) : swap32 (join32 d c b a) = join32 a b c d := by
  have bytes := store32_join32 d c b a
  simp only [ByteOrder.store32, List.cons.injEq] at bytes
  obtain ⟨first, second, third, fourth, _⟩ := bytes
  rw [swap32, first, second, third, fourth]

theorem swap32_swap32 (x : UInt32) : swap32 (swap32 x) = x := by
  have bytes : swap32 x =
      join32 x.toUInt8 (x >>> 8).toUInt8 (x >>> 16).toUInt8 (x >>> 24).toUInt8 := rfl
  rw [bytes, swap32_join32, join32_bytes]

theorem net32_net32 (order : ByteOrder) (x : UInt32) : order.net32 (order.net32 x) = x := by
  cases order with
  | little => exact swap32_swap32 x
  | big => rfl

theorem store32_net32 (order : ByteOrder) (x : UInt32) :
    order.store32 (order.net32 x) = ByteOrder.big.store32 x := by
  cases order with
  | little => exact store32_join32 _ _ _ _
  | big => rfl

theorem store16_net16 (order : ByteOrder) (x : UInt16) :
    order.store16 (order.net16 x) = ByteOrder.big.store16 x := by
  cases order with
  | little =>
      have bound := x.toNat_lt
      have swapped := swap16_toNat x
      have high : (swap16 x).toUInt8 = (x >>> 8).toUInt8 := by
        apply UInt8.toNat_inj.mp
        change (swap16 x).toNat % 2 ^ 8 = x.toNat >>> 8 % 2 ^ 8
        rw [Nat.shiftRight_eq_div_pow]
        omega
      have low : (swap16 x >>> 8).toUInt8 = x.toUInt8 := by
        apply UInt8.toNat_inj.mp
        have digit : (swap16 x).toNat / 2 ^ 8 = x.toNat % 2 ^ 8 := by omega
        change (swap16 x).toNat >>> 8 % 2 ^ 8 = x.toNat % 2 ^ 8
        rw [Nat.shiftRight_eq_div_pow, digit]
        omega
      simp only [ByteOrder.net16, ByteOrder.store16, high, low]
  | big => rfl

theorem net32_load32 (order : ByteOrder) (a b c d : UInt8) :
    order.net32 (order.load32 a b c d) = join32 a b c d := by
  cases order with
  | little => exact swap32_join32 d c b a
  | big => rfl

/-- What an `int` of 32 bits holds of a number. -/
def int32 (n : Int) : Int := n.bmod (2 ^ 32)

theorem int32_small {n : Int} (low : 0 ≤ n) (high : n < 2 ^ 31) : int32 n = n :=
  Int.bmod_eq_of_le (by omega) (by omega)

theorem int32_lt (n : Int) : int32 n < 2 ^ 31 := by
  have below := @Int.bmod_lt n (2 ^ 32) (by decide)
  rw [int32]
  omega

theorem int32_add (n k : Int) : int32 (int32 n + k) = int32 (n + k) := Int.bmod_add_bmod

theorem int32_mul (n k : Int) : int32 (int32 n * k) = int32 (n * k) := Int.bmod_mul_bmod

/-! ## Memory -/

section Memory
variable {α : Type}

/-- Memory holds the list from address `i` on. -/
def Holds (mem : Nat → α) : Nat → List α → Prop
  | _, [] => True
  | i, x :: rest => mem i = x ∧ Holds mem (i + 1) rest

@[simp] theorem holds_nil (mem : Nat → α) (i : Nat) : Holds mem i [] := trivial

@[simp] theorem holds_cons (mem : Nat → α) (i : Nat) (x : α) (rest : List α) :
    Holds mem i (x :: rest) ↔ mem i = x ∧ Holds mem (i + 1) rest := Iff.rfl

theorem holds_append (mem : Nat → α) (i : Nat) (first second : List α) :
    Holds mem i (first ++ second) ↔ Holds mem i first ∧ Holds mem (i + first.length) second := by
  induction first generalizing i with
  | nil => simp
  | cons x rest ih =>
      rw [List.cons_append, holds_cons, holds_cons, ih, List.length_cons, and_assoc]
      have next : i + 1 + rest.length = i + (rest.length + 1) := by omega
      rw [next]

theorem holds_of_getElem {mem : Nat → α} {i : Nat} {list : List α}
    (same : ∀ k, k < list.length → list[k]? = some (mem (i + k))) : Holds mem i list := by
  induction list generalizing i with
  | nil => trivial
  | cons x rest ih =>
      refine ⟨?_, ih ?_⟩
      · exact (Option.some.inj (same 0 (Nat.zero_lt_succ _))).symm
      · intro k inside
        have later := same (k + 1) (Nat.succ_lt_succ inside)
        rw [List.getElem?_cons_succ] at later
        rw [later, Nat.add_assoc, Nat.add_comm 1 k]

theorem Holds.read {mem : Nat → α} {i : Nat} {list : List α} (holds : Holds mem i list) :
    (List.range list.length).map (fun k => mem (i + k)) = list := by
  induction list generalizing i with
  | nil => rfl
  | cons x rest ih =>
      rw [List.length_cons, List.range_succ_eq_map, List.map_cons, List.map_map]
      have shifted : ∀ k, mem (i + Nat.succ k) = mem (i + 1 + k) := by
        intro k
        congr 1
        omega
      have later : (List.range rest.length).map ((fun k => mem (i + k)) ∘ Nat.succ) = rest :=
        (List.map_congr_left fun k _ => shifted k).trans (ih holds.2)
      rw [later]
      exact congrArg (· :: rest) holds.1

/-- The list is stored from address `i` on. -/
def overwrite (mem : Nat → α) (i : Nat) (list : List α) : Nat → α :=
  fun j => if i ≤ j then (list[j - i]?).getD (mem j) else mem j

theorem overwrite_before {mem : Nat → α} {i j : Nat} (list : List α) (before : j < i) :
    overwrite mem i list j = mem j := by
  rw [overwrite, if_neg (by omega)]

theorem overwrite_after {mem : Nat → α} {i j : Nat} {list : List α} (after : i + list.length ≤ j) :
    overwrite mem i list j = mem j := by
  rw [overwrite, if_pos (by omega), List.getElem?_eq_none (by omega), Option.getD_none]

theorem holds_overwrite (mem : Nat → α) (i : Nat) (list : List α) :
    Holds (overwrite mem i list) i list := by
  apply holds_of_getElem
  intro k inside
  rw [overwrite, if_pos (by omega), Nat.add_sub_cancel_left, List.getElem?_eq_getElem inside,
    Option.getD_some]

end Memory

/-- A byte of a message that ends; `fault` is the read of one that it has not. -/
def readByteOr {ε : Type} (fault : ε) (msg : List UInt8) (i : Nat) : Except ε UInt8 :=
  match msg[i]? with
  | some byte => .ok byte
  | none => .error fault

theorem readByteOr_inside {ε : Type} (fault : ε) {msg : List UInt8} {i : Nat}
    (inside : i < msg.length) : readByteOr fault msg i = .ok (msg.getD i 0) := by
  simp [readByteOr, inside]

theorem readByteOr_outside {ε : Type} (fault : ε) {msg : List UInt8} {i : Nat}
    (outside : msg.length ≤ i) : readByteOr fault msg i = .error fault := by
  simp [readByteOr, outside]

theorem load16_store16 {mem : Nat → UInt8} {i : Nat} (order : ByteOrder) (x : UInt16)
    (holds : Holds mem i (order.store16 x)) : order.load16 (mem i) (mem (i + 1)) = x := by
  cases order with
  | little =>
      obtain ⟨first, second, _⟩ := holds
      rw [first, second]
      exact join16_bytes x
  | big =>
      obtain ⟨first, second, _⟩ := holds
      rw [first, second]
      exact join16_bytes x

theorem load32_store32 {mem : Nat → UInt8} {i : Nat} (order : ByteOrder) (x : UInt32)
    (holds : Holds mem i (order.store32 x)) :
    order.load32 (mem i) (mem (i + 1)) (mem (i + 2)) (mem (i + 3)) = x := by
  cases order with
  | little =>
      obtain ⟨a, b, c, d, _⟩ := holds
      rw [a, b, c, d]
      exact join32_bytes x
  | big =>
      obtain ⟨a, b, c, d, _⟩ := holds
      rw [a, b, c, d]
      exact join32_bytes x

end OaiPmip.Wire
