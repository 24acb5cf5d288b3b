import OaiPmip.Types
import OaiPmip.Lib.OnesComplement
import OaiPmip.Lib.Wire

/-!
# The checksum: util.c

`in6_cksum` adds up the pseudo header and the data in words of sixteen bits as the host
loads them, in an `unsigned long`, and adds the carries back in until none is left.
-/

set_option autoImplicit false

namespace OaiPmip.Checksum

open OaiPmip.Wire OaiPmip.OnesComplement

/-- The widths of an `unsigned long`. -/
inductive LongWidth where
  | ilp32
  | lp64
  deriving DecidableEq

def LongWidth.bits : LongWidth → Nat
  | .ilp32 => 32
  | .lp64 => 64

def LongWidth.wrap (long : LongWidth) (n : Nat) : Nat := n % 2 ^ long.bits

/-- `~sum`. -/
def LongWidth.lnot (long : LongWidth) (sum : Nat) : Nat := 2 ^ long.bits - 1 - sum

structure Phdr where
  src : In6Addr
  dst : In6Addr
  plen : UInt32
  reserved : Octets 3
  nxt : UInt8

def Phdr.bytes (order : ByteOrder) (phdr : Phdr) : List UInt8 :=
  phdr.src.bytes ++ phdr.dst.bytes ++ order.store32 phdr.plen ++ phdr.reserved.bytes ++ [phdr.nxt]

/-- What `*addr++` reads while two bytes are left. -/
def words (order : ByteOrder) : List UInt8 → List UInt16
  | first :: second :: rest => order.load16 first second :: words order rest
  | _ => []

def addWords (long : LongWidth) : Nat → List UInt16 → Nat
  | sum, [] => sum
  | sum, word :: rest => addWords long (long.wrap (sum + word.toNat)) rest

/-- `while (sum >> 16)`, at most as many turns as there is fuel. -/
def foldSum (long : LongWidth) : Nat → Nat → Option Nat
  | 0, _ => none
  | fuel + 1, sum =>
      if sum >>> 16 ≠ 0 then foldSum long fuel (long.wrap ((sum &&& 0xffff) + sum >>> 16))
      else some sum

def pseudoHeader (order : ByteOrder) (src dst : In6Addr) (datalen : Nat) (nh : UInt8) : Phdr where
  src := src
  dst := dst
  plen := order.net32 (UInt32.ofNat datalen)
  reserved := Octets.zero 3
  nxt := nh

def in6Cksum (order : ByteOrder) (long : LongWidth) (fuel : Nat) (src dst : In6Addr)
    (data : List UInt8) (nh : UInt8) : Option UInt16 := do
  let phdr := pseudoHeader order src dst data.length nh
  let sum := addWords long 0 (words order (phdr.bytes order))
  let sum := addWords long sum (words order data)
  let sum ← foldSum long fuel sum
  return UInt16.ofNat (long.lnot sum)

def storeAt (data : List UInt8) (i : Nat) (bytes : List UInt8) : List UInt8 :=
  data.take i ++ bytes ++ data.drop (i + bytes.length)

def allWords (order : ByteOrder) (src dst : In6Addr) (data : List UInt8) (nh : UInt8) :
    List UInt16 :=
  words order ((pseudoHeader order src dst data.length nh).bytes order) ++ words order data

def total (list : List UInt16) : Nat := (list.map UInt16.toNat).sum

@[simp] theorem total_nil : total [] = 0 := rfl

@[simp] theorem total_cons (word : UInt16) (rest : List UInt16) :
    total (word :: rest) = word.toNat + total rest := by
  rw [total, List.map_cons, List.sum_cons, total]

theorem total_append (first second : List UInt16) :
    total (first ++ second) = total first + total second := by
  rw [total, List.map_append, List.sum_append, total, total]

theorem total_le (list : List UInt16) : total list ≤ 65535 * list.length := by
  induction list with
  | nil => exact Nat.zero_le _
  | cons word rest ih =>
      have below := word.toNat_lt
      rw [total_cons, List.length_cons]
      omega

theorem addWords_append (long : LongWidth) (sum : Nat) (first second : List UInt16) :
    addWords long sum (first ++ second) = addWords long (addWords long sum first) second := by
  induction first generalizing sum with
  | nil => rfl
  | cons word rest ih => exact ih _

theorem addWords_eq {long : LongWidth} {sum : Nat} {list : List UInt16}
    (fits : sum + total list < 2 ^ long.bits) : addWords long sum list = sum + total list := by
  induction list generalizing sum with
  | nil => rfl
  | cons word rest ih =>
      rw [total_cons] at fits
      have here : long.wrap (sum + word.toNat) = sum + word.toNat := Nat.mod_eq_of_lt (by omega)
      rw [addWords, here, ih (by omega), total_cons, Nat.add_assoc]

theorem length_lt_two {bytes : List UInt8}
    (short : ∀ first second rest, bytes = first :: second :: rest → False) :
    bytes.length < 2 := by
  cases bytes with
  | nil => decide
  | cons first rest =>
      cases rest with
      | nil => exact Nat.one_lt_two
      | cons second rest => exact absurd rfl (short first second rest)

theorem words_length (order : ByteOrder) (bytes : List UInt8) :
    (words order bytes).length = bytes.length / 2 := by
  induction bytes using words.induct with
  | case1 first second rest ih =>
      rw [words, List.length_cons, ih, List.length_cons, List.length_cons]
      omega
  | case2 bytes short =>
      rw [words.eq_2 order bytes short, Nat.div_eq_of_lt (length_lt_two short)]
      rfl

theorem words_append (order : ByteOrder) {first second : List UInt8}
    (even : first.length % 2 = 0) :
    words order (first ++ second) = words order first ++ words order second := by
  induction first using words.induct with
  | case1 x y rest ih =>
      simp only [List.length_cons] at even
      rw [List.cons_append, List.cons_append, words, words, ih (by omega), List.cons_append]
  | case2 bytes short =>
      have none := length_lt_two short
      have empty : bytes = [] := List.length_eq_zero_iff.mp (by omega)
      rw [empty]
      rfl

theorem words_store16 (order : ByteOrder) (x : UInt16) : words order (order.store16 x) = [x] := by
  cases order with
  | little => exact congrArg (fun word => [word]) (join16_bytes x)
  | big => exact congrArg (fun word => [word]) (join16_bytes x)

theorem words_zero (order : ByteOrder) : words order [0, 0] = [0] := by
  cases order <;> rfl

section Sum
variable (order : ByteOrder) (src dst : In6Addr) (data : List UInt8) (nh : UInt8)

theorem phdr_length (phdr : Phdr) : (phdr.bytes order).length = 40 := by
  have plen : (order.store32 phdr.plen).length = 4 := by cases order <;> rfl
  simp only [Phdr.bytes, List.length_append, phdr.src.size, phdr.dst.size, plen,
    phdr.reserved.size, List.length_cons, List.length_nil]

theorem allWords_length :
    (allWords order src dst data nh).length = 20 + data.length / 2 := by
  rw [allWords, List.length_append, words_length, words_length, phdr_length]

theorem total_short (short : data.length ≤ 65535) :
    total (allWords order src dst data nh) < 2 ^ 32 := by
  have below := total_le (allWords order src dst data nh)
  rw [allWords_length] at below
  omega

theorem total_lt (fits : data.length < 2 ^ 32) :
    total (allWords order src dst data nh) < 2 ^ 64 := by
  have below := total_le (allWords order src dst data nh)
  rw [allWords_length] at below
  omega

theorem total_wide {long : LongWidth} (fits : data.length < 2 ^ 32)
    (narrow : long = .ilp32 → data.length ≤ 65535) :
    total (allWords order src dst data nh) < 2 ^ long.bits := by
  cases long with
  | ilp32 => exact total_short order src dst data nh (narrow rfl)
  | lp64 => exact total_lt order src dst data nh fits

end Sum

theorem foldSum_eq (long : LongWidth) {fuel sum : Nat} (fits : sum < 2 ^ long.bits) :
    foldSum long fuel sum = carries 65535 fuel sum := by
  have wide : 2 ^ 32 ≤ 2 ^ long.bits := by cases long <;> decide
  induction fuel generalizing sum with
  | zero => rfl
  | succ fuel ih =>
      have high : sum >>> 16 = sum / (65535 + 1) := Nat.shiftRight_eq_div_pow sum 16
      have low : sum &&& 0xffff = sum % (65535 + 1) := Nat.and_two_pow_sub_one_eq_mod sum 16
      have next : long.wrap ((sum &&& 0xffff) + sum >>> 16) = carry 65535 sum := by
        rw [high, low, carry]
        exact Nat.mod_eq_of_lt (by omega)
      have smaller := carry_le 65535 sum
      rw [foldSum, carries, next, high]
      by_cases large : 65535 < sum
      · rw [if_pos large, if_pos (by omega), ih (by omega)]
      · rw [if_neg large, if_neg (by omega)]

/-- Five carries leave one digit of any sum that an `unsigned long` holds. -/
theorem carries_six {sum : Nat} (fits : sum < 2 ^ 64) :
    carries 65535 6 sum = some (residue 65535 sum) := by
  have two := @carries_two 65535 (by decide)
  have three := carries_succ (show ∀ n ≤ 65535 + 131071 / (65535 + 1), _ from two)
  have four := carries_succ (show ∀ n ≤ 65535 + 4295032831 / (65535 + 1), _ from three)
  have five := carries_succ (show ∀ n ≤ 65535 + 281474976776191 / (65535 + 1), _ from four)
  exact carries_succ (show ∀ n ≤ 65535 + (2 ^ 64 - 1) / (65535 + 1), _ by
    intro n small
    exact five n (by omega)) sum (by omega)

theorem foldSum_ends (long : LongWidth) {fuel sum : Nat} (fits : sum < 2 ^ long.bits)
    (enough : 6 ≤ fuel) : foldSum long fuel sum = some (residue 65535 sum) := by
  have wide : 2 ^ long.bits ≤ 2 ^ 64 := by cases long <;> decide
  rw [foldSum_eq long fits]
  exact carries_more (carries_six (by omega)) enough

theorem lnot_toNat (long : LongWidth) {digit : Nat} (small : digit ≤ 65535) :
    (UInt16.ofNat (long.lnot digit)).toNat = 65535 - digit := by
  rw [UInt16.toNat_ofNat', LongWidth.lnot]
  cases long with
  | ilp32 =>
      change (2 ^ 32 - 1 - digit) % 2 ^ 16 = _
      omega
  | lp64 =>
      change (2 ^ 64 - 1 - digit) % 2 ^ 16 = _
      omega

section Checksum
variable {order : ByteOrder} {long : LongWidth} {src dst : In6Addr} {data : List UInt8}
  {nh : UInt8}

def cksumOf (long : LongWidth) (list : List UInt16) : UInt16 :=
  UInt16.ofNat (long.lnot (residue 65535 (total list)))

theorem cksumOf_toNat (long : LongWidth) (list : List UInt16) :
    (cksumOf long list).toNat = 65535 - residue 65535 (total list) :=
  lnot_toNat long (residue_le (by decide) _)

theorem in6Cksum_eq (fits : total (allWords order src dst data nh) < 2 ^ long.bits) {fuel : Nat}
    (enough : 6 ≤ fuel) : in6Cksum order long fuel src dst data nh =
      some (cksumOf long (allWords order src dst data nh)) := by
  have sum : addWords long (addWords long 0
      (words order ((pseudoHeader order src dst data.length nh).bytes order)))
      (words order data) = total (allWords order src dst data nh) := by
    rw [← addWords_append, ← allWords, addWords_eq (by omega), Nat.zero_add]
  rw [in6Cksum, sum, foldSum_ends long fits enough]
  rfl

end Checksum

/-! ## The stored word and the byte orders -/

theorem split_zero {data : List UInt8} {i : Nat} (first : data[i]? = some 0)
    (second : data[i + 1]? = some 0) : data = data.take i ++ [0, 0] ++ data.drop (i + 2) := by
  obtain ⟨inFirst, isFirst⟩ := List.getElem?_eq_some_iff.mp first
  obtain ⟨inSecond, isSecond⟩ := List.getElem?_eq_some_iff.mp second
  have rest : data.drop i = [0, 0] ++ data.drop (i + 2) := by
    rw [List.drop_eq_getElem_cons inFirst, List.drop_eq_getElem_cons inSecond, isFirst, isSecond]
    rfl
  rw [List.append_assoc, ← rest, List.take_append_drop]

theorem take_even {data : List UInt8} {i : Nat} (even : i % 2 = 0) (first : data[i]? = some 0) :
    (data.take i).length % 2 = 0 := by
  obtain ⟨inFirst, _⟩ := List.getElem?_eq_some_iff.mp first
  rw [List.length_take, Nat.min_eq_left (Nat.le_of_lt inFirst)]
  exact even

theorem total_storeAt {data : List UInt8} {i : Nat} (even : i % 2 = 0)
    (first : data[i]? = some 0) (second : data[i + 1]? = some 0) (order : ByteOrder) (x : UInt16) :
    total (words order (storeAt data i (order.store16 x))) =
      total (words order data) + x.toNat := by
  have start := take_even even first
  have stored : (order.store16 x).length = 2 := by cases order <;> rfl
  have before : total (words order data) = total (words order (data.take i)) +
      total (words order (data.drop (i + 2))) := by
    have split := congrArg (fun bytes => total (words order bytes)) (split_zero first second)
    rw [List.append_assoc, words_append order start,
      words_append order (show [0, 0].length % 2 = 0 from rfl), words_zero, total_append,
      total_append] at split
    simpa using split
  rw [storeAt, stored, List.append_assoc, words_append order start,
    words_append order (show (order.store16 x).length % 2 = 0 by rw [stored]), words_store16,
    total_append, total_append, before, total_cons, total_nil]
  omega

theorem storeAt_length {data : List UInt8} {i : Nat} {byte : UInt8}
    (second : data[i + 1]? = some byte) {bytes : List UInt8} (two : bytes.length = 2) :
    (storeAt data i bytes).length = data.length := by
  obtain ⟨inSecond, _⟩ := List.getElem?_eq_some_iff.mp second
  rw [storeAt, two, List.length_append, List.length_append, List.length_take, List.length_drop, two]
  omega

theorem swap16_join16 (high low : UInt8) : swap16 (join16 high low) = join16 low high := by
  apply UInt16.toNat_inj.mp
  have isHigh := high.toNat_lt
  have isLow := low.toNat_lt
  rw [swap16_toNat, join16_toNat, join16_toNat]
  omega

theorem words_little (bytes : List UInt8) :
    words .little bytes = (words .big bytes).map swap16 := by
  induction bytes using words.induct with
  | case1 first second rest ih =>
      rw [words, words, List.map_cons, ih]
      exact congrArg (· :: _) (swap16_join16 first second).symm
  | case2 bytes short =>
      rw [words.eq_2 .little bytes short, words.eq_2 .big bytes short]
      rfl

theorem swap16_digits (x : UInt16) : (swap16 x).toNat = swap 256 x.toNat := swap16_toNat x

theorem allWords_little (src dst : In6Addr) (data : List UInt8) (nh : UInt8) :
    allWords .little src dst data nh = (allWords .big src dst data nh).map swap16 := by
  have header : (pseudoHeader .little src dst data.length nh).bytes .little =
      (pseudoHeader .big src dst data.length nh).bytes .big := by
    simp only [Phdr.bytes, pseudoHeader, store32_net32]
  rw [allWords, allWords, header, words_little, words_little, List.map_append]

theorem cksumOf_little (long : LongWidth) (list : List UInt16) :
    cksumOf long (list.map swap16) = swap16 (cksumOf long list) := by
  have square : 256 * 256 = 65535 + 1 := rfl
  have digit := residue_le (show 0 < 65535 by decide) (total list)
  have sum : total (list.map swap16) = ((list.map UInt16.toNat).map (swap 256)).sum := by
    rw [total, List.map_map, List.map_map]
    exact congrArg List.sum (List.map_congr_left fun x _ => swap16_digits x)
  apply UInt16.toNat_inj.mp
  rw [swap16_digits, cksumOf_toNat, cksumOf_toNat, sum, residue_sum_swap square (by decide),
    swap_complement square digit]
  rfl

/-! ## The law -/

/-- With the checksum stored at `i` a second one is zero, and every host stores the same bytes. -/
def Verifies (long : LongWidth) (src dst : In6Addr) (data : List UInt8) (nh : UInt8) (i : Nat) :
    Prop :=
  ∃ stored, ∀ order : ByteOrder, ∃ cksum, order.store16 cksum = stored ∧
    ∀ fuel ≥ 6, in6Cksum order long fuel src dst data nh = some cksum ∧
      in6Cksum order long fuel src dst (storeAt data i stored) nh = some 0

theorem allWords_storeAt {data : List UInt8} {i : Nat} (even : i % 2 = 0)
    (first : data[i]? = some 0) (second : data[i + 1]? = some 0) (order : ByteOrder)
    (src dst : In6Addr) (nh : UInt8) (x : UInt16) :
    total (allWords order src dst (storeAt data i (order.store16 x)) nh) =
      total (allWords order src dst data nh) + x.toNat := by
  have two : (order.store16 x).length = 2 := by cases order <;> rfl
  rw [allWords, storeAt_length second two, total_append, total_storeAt even first second, allWords,
    total_append, Nat.add_assoc]

theorem verifies {long : LongWidth} {src dst : In6Addr} {data : List UInt8} {nh : UInt8} {i : Nat}
    (length : data.length < 2 ^ 32) (narrow : long = .ilp32 → data.length ≤ 65535)
    (even : i % 2 = 0) (first : data[i]? = some 0) (second : data[i + 1]? = some 0) :
    Verifies long src dst data nh i := by
  refine ⟨ByteOrder.big.store16 (cksumOf long (allWords .big src dst data nh)), fun order => ?_⟩
  have stored : order.store16 (cksumOf long (allWords order src dst data nh)) =
      ByteOrder.big.store16 (cksumOf long (allWords .big src dst data nh)) := by
    cases order with
    | little =>
        rw [allWords_little, cksumOf_little]
        exact store16_net16 .little _
    | big => rfl
  refine ⟨cksumOf long (allWords order src dst data nh), stored, fun fuel enough => ?_⟩
  rw [← stored]
  have computed := in6Cksum_eq (total_wide order src dst data nh length narrow) enough
  have isCksum := cksumOf_toNat long (allWords order src dst data nh)
  generalize cksumOf long (allWords order src dst data nh) = cksum at computed isCksum
  have same := storeAt_length second (show (order.store16 cksum).length = 2 by cases order <;> rfl)
  have room := total_wide order src dst (storeAt data i (order.store16 cksum)) nh
    (same ▸ length) (fun isNarrow => same ▸ narrow isNarrow)
  refine ⟨computed, ?_⟩
  have zero : cksumOf long (allWords order src dst (storeAt data i (order.store16 cksum)) nh) =
      0 := by
    apply UInt16.toNat_inj.mp
    rw [cksumOf_toNat, allWords_storeAt even first second, isCksum,
      residue_add_complement (show 0 < 65535 by decide)]
    rfl
  rw [in6Cksum_eq room enough, zero]

theorem addWords_take (long : LongWidth) (order : ByteOrder) (src dst : In6Addr)
    {data : List UInt8} (nh : UInt8) (short : data.length ≤ 65535) (k : Nat) :
    addWords long 0 ((allWords order src dst data nh).take k) =
        total ((allWords order src dst data nh).take k) ∧
      total ((allWords order src dst data nh).take k) < 2 ^ long.bits := by
  have whole := total_short order src dst data nh short
  have wide : 2 ^ 32 ≤ 2 ^ long.bits := by cases long <;> decide
  have parts := total_append ((allWords order src dst data nh).take k)
    ((allWords order src dst data nh).drop k)
  rw [List.take_append_drop] at parts
  have part : total ((allWords order src dst data nh).take k) < 2 ^ long.bits := by omega
  refine ⟨?_, part⟩
  rw [addWords_eq (by omega), Nat.zero_add]

theorem in6Cksum_law :
    (∀ long src dst data nh i, data.length < 2 ^ 32 → (long = .ilp32 → data.length ≤ 65535) →
      i % 2 = 0 → data[i]? = some 0 → data[i + 1]? = some 0 → Verifies long src dst data nh i) ∧
    (∀ long sum, sum < 2 ^ long.bits → ∃ digit, ∀ fuel ≥ 6, foldSum long fuel sum = some digit) ∧
    ∀ long order src dst data nh, data.length ≤ 65535 → ∀ k,
      addWords long 0 ((allWords order src dst data nh).take k) =
          total ((allWords order src dst data nh).take k) ∧
        total ((allWords order src dst data nh).take k) < 2 ^ long.bits := by
  refine ⟨?_, ?_, ?_⟩
  · intro long src dst data nh i length narrow even first second
    exact verifies length narrow even first second
  · intro long sum fits
    exact ⟨residue 65535 sum, fun fuel enough => foldSum_ends long fits enough⟩
  · intro long order src dst data nh short k
    exact addWords_take long order src dst nh short k

/-- A router solicitation without options. -/
theorem in6Cksum_solicitation :
    Verifies .lp64 in6addrAny in6addrAny [133, 0, 0, 0, 0, 0, 0, 0] 58 2 :=
  in6Cksum_law.1 .lp64 in6addrAny in6addrAny [133, 0, 0, 0, 0, 0, 0, 0] 58 2 (by decide)
    (by decide) (by decide) (by decide) (by decide)

end OaiPmip.Checksum
