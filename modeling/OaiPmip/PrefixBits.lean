import OaiPmip.HaPrefixes

/-!
# Prefix bits: prefix.h and prefix.c

`ipv6_addr_prefix`, `ipv6_addr_create` and `ipv6_pfx_cmp` split a length into whole bytes
and the rest, with a mask for the byte in between.  Every access to one of the sixteen
bytes is checked: `none` is one outside.
-/

set_option autoImplicit false

namespace OaiPmip.PrefixBits

open OaiPmip.Ha

def ofBytes (f : Nat → UInt8) : In6Addr := ⟨(List.range 16).map f, by simp⟩

def load (a : In6Addr) (i : Nat) : Option UInt8 := if i < 16 then some (a.get i) else none

def store (a : In6Addr) (i : Nat) (x : UInt8) : Option In6Addr :=
  if i < 16 then some (ofBytes fun j => if j = i then x else a.get j) else none

def memcpy (dst src : In6Addr) (off n : Nat) : Option In6Addr :=
  if off + n ≤ 16 then
    some (ofBytes fun j => if off ≤ j ∧ j < off + n then src.get j else dst.get j)
  else none

def memset (dst : In6Addr) (off n : Nat) : Option In6Addr :=
  if off + n ≤ 16 then
    some (ofBytes fun j => if off ≤ j ∧ j < off + n then 0 else dst.get j)
  else none

def memcmpLoop : List UInt8 → List UInt8 → Int
  | x :: xs, y :: ys => if x ≠ y then (x.toNat : Int) - y.toNat else memcmpLoop xs ys
  | _, _ => 0

def memcmp (p1 p2 : In6Addr) (n : Nat) : Option Int :=
  if n ≤ 16 then some (memcmpLoop (p1.bytes.take n) (p2.bytes.take n)) else none

/-- An `int` as a `size_t`. -/
def sizeT (n : Int) : Nat := (n % 2 ^ 64).toNat

/-- `x & (0xff00 >> b)` in a byte. -/
def keepBits (x : UInt8) (b : Nat) : UInt8 := UInt8.ofNat (x.toNat &&& 0xff00 >>> b)

/-- `x & (0x00ff >> b)` in a byte. -/
def dropBits (x : UInt8) (b : Nat) : UInt8 := UInt8.ofNat (x.toNat &&& 0x00ff >>> b)

def ipv6AddrPrefix (pfx addr : In6Addr) (plen : Int) : Option In6Addr := do
  let plen := if plen < 0 then 0 else if plen > 128 then 128 else plen
  let o := (plen / 8).toNat
  let b := (plen % 8).toNat
  let pfx ← memcpy pfx addr 0 o
  if b ≠ 0 then
    let pfx ← store pfx o (keepBits (← load addr o) b)
    memset pfx (o + 1) (16 - (o + 1))
  else memset pfx o (16 - o)

def ipv6AddrCreate (addr pfx sfx : In6Addr) (plen : Int) : Option In6Addr := do
  let plen := if plen > 128 ∨ plen < 0 then 0 else plen
  let o := (plen / 8).toNat
  let b := (plen % 8).toNat
  let addr ← memcpy addr pfx 0 o
  if b ≠ 0 then
    let addr ← store addr o (keepBits (← load pfx o) b ||| dropBits (← load sfx o) b)
    memcpy addr sfx (o + 1) (16 - (o + 1))
  else memcpy addr sfx o (16 - o)

/-- `ipv6_pfx_cmp`; its result is tested for zero only. -/
def ipv6PfxCmp (p1 p2 : In6Addr) (plen : Int) : Option Int := do
  let o := plen / 8
  let b := (plen % 8).toNat
  let res ← memcmp p1 p2 (sizeT o)
  if res ≠ 0 ∨ b = 0 then some res
  else
    let x ← load p1 o.toNat
    let y ← load p2 o.toNat
    some (((x ^^^ y).toNat &&& 0xff00 >>> b : Nat) : Int)

def dhaadGenSuffix : In6Addr :=
  ⟨[0xff, 0xff, 0xff, 0xff, 0xff, 0xff, 0xff, 0xff, 0xff, 0xff, 0xff, 0xff, 0xff, 0xff, 0xff,
    0xfe], rfl⟩

def dhaadEui64Suffix : In6Addr :=
  ⟨[0x0, 0x0, 0x0, 0x0, 0x0, 0x0, 0x0, 0x0, 0xfd, 0xff, 0xff, 0xff, 0xff, 0xff, 0xff, 0xfe], rfl⟩

def dhaadGenHaAnycast (anycast pfx : In6Addr) (plen : Int) : Option In6Addr :=
  ipv6AddrCreate anycast pfx (if plen = 64 then dhaadEui64Suffix else dhaadGenSuffix) plen

/-! ## Bytes and masks -/

theorem get_ofBytes (f : Nat → UInt8) {i : Nat} (inside : i < 16) : (ofBytes f).get i = f i := by
  simp [Octets.get, ofBytes, List.getD_eq_getElem?_getD, inside]

theorem addrBit_ofBytes (f : Nat → UInt8) {k : Nat} (inside : k < 128) :
    addrBit (ofBytes f) k = (f (k / 8)).toNat.testBit (7 - k % 8) := by
  rw [addrBit, get_ofBytes f (by omega)]

theorem ofBytes_congr {f g : Nat → UInt8} (same : ∀ i < 16, f i = g i) :
    ofBytes f = ofBytes g := by
  apply Octets.ext_bytes
  apply List.map_congr_left
  intro i member
  exact same i (List.mem_range.mp member)

theorem and_toNat (x : UInt8) (mask : Nat) :
    (UInt8.ofNat (x.toNat &&& mask)).toNat = x.toNat &&& mask := by
  apply UInt8.toNat_ofNat_of_lt'
  exact lt_of_le_of_lt Nat.and_le_left x.toNat_lt

theorem testBit_low_mask {b j : Nat} (small : b < 8) (inByte : j < 8) :
    (0x00ff >>> b).testBit j = decide (j < 8 - b) := by
  have all : ∀ b < 8, ∀ j < 8, (0x00ff >>> b).testBit j = decide (j < 8 - b) := by decide
  exact all b small j inByte

theorem keepBits_testBit (x : UInt8) {b t : Nat} (small : b < 8) (inByte : t < 8) :
    (keepBits x b).toNat.testBit (7 - t) = (decide (t < b) && x.toNat.testBit (7 - t)) := by
  rw [keepBits, and_toNat, Nat.testBit_and, testBit_byte_mask small (by omega), Bool.and_comm]
  congr 1
  rw [decide_eq_decide]
  omega

theorem dropBits_testBit (x : UInt8) {b t : Nat} (small : b < 8) (inByte : t < 8) :
    (dropBits x b).toNat.testBit (7 - t) = (decide (b ≤ t) && x.toNat.testBit (7 - t)) := by
  rw [dropBits, and_toNat, Nat.testBit_and, testBit_low_mask small (by omega), Bool.and_comm]
  congr 1
  rw [decide_eq_decide]
  omega

section Accesses
variable {plen : Nat}

theorem whole_cast : ((plen : Int) / 8).toNat = plen / 8 := by omega

theorem rest_cast : ((plen : Int) % 8).toNat = plen % 8 := by omega

def prefixByte (a : In6Addr) (plen i : Nat) : UInt8 :=
  if i < plen / 8 then a.get i
  else if i = plen / 8 ∧ plen % 8 ≠ 0 then keepBits (a.get i) (plen % 8)
  else 0

def createdByte (p s : In6Addr) (plen i : Nat) : UInt8 :=
  if i < plen / 8 then p.get i
  else if i = plen / 8 ∧ plen % 8 ≠ 0 then
    keepBits (p.get i) (plen % 8) ||| dropBits (s.get i) (plen % 8)
  else s.get i

theorem ofBytes_filled (old : In6Addr) (front rest : Nat → UInt8) (o : Nat) :
    ofBytes (fun j => if o ≤ j ∧ j < o + (16 - o) then rest j
      else (ofBytes fun j => if 0 ≤ j ∧ j < o then front j else old.get j).get j) =
    ofBytes fun j => if j < o then front j else rest j := by
  apply ofBytes_congr
  intro i inside
  by_cases whole : i < o
  · rw [if_neg (by omega), get_ofBytes _ inside, if_pos (by omega), if_pos whole]
  · rw [if_pos (by omega), if_neg whole]

theorem ofBytes_split (old : In6Addr) (front rest : Nat → UInt8) (x : UInt8) (o : Nat) :
    ofBytes (fun j => if o + 1 ≤ j ∧ j < o + 1 + (16 - (o + 1)) then rest j
      else (ofBytes fun j => if j = o then x
        else (ofBytes fun j => if 0 ≤ j ∧ j < o then front j else old.get j).get j).get j) =
    ofBytes fun j => if j < o then front j else if j = o then x else rest j := by
  apply ofBytes_congr
  intro i inside
  by_cases whole : i < o
  · rw [if_neg (by omega), get_ofBytes _ inside, if_neg (by omega), get_ofBytes _ inside,
      if_pos (by omega), if_pos whole]
  · by_cases isSplit : i = o
    · rw [if_neg (by omega), get_ofBytes _ inside, if_pos isSplit, if_neg whole, if_pos isSplit]
    · rw [if_pos (by omega), if_neg whole, if_neg isSplit]

theorem ipv6AddrPrefix_eq (old a : In6Addr) (bounded : plen ≤ 128) :
    ipv6AddrPrefix old a plen = some (ofBytes (prefixByte a plen)) := by
  have clamped : (if (plen : Int) < 0 then (0 : Int) else if (plen : Int) > 128 then 128
      else (plen : Int)) = plen := by
    rw [if_neg (by omega), if_neg (by omega)]
  simp only [ipv6AddrPrefix, clamped, whole_cast, rest_cast, memcpy, Nat.zero_add,
    if_pos (show plen / 8 ≤ 16 by omega), Option.bind_eq_bind, Option.bind_some]
  by_cases aligned : plen % 8 = 0
  · simp only [aligned, ne_eq, not_true_eq_false, if_false, memset,
      if_pos (show plen / 8 + (16 - plen / 8) ≤ 16 by omega), Option.some.injEq]
    refine (ofBytes_filled old a.get (fun _ => 0) _).trans (ofBytes_congr fun i _ => ?_)
    simp only [prefixByte, aligned, ne_eq, not_true_eq_false, and_false, if_false]
  · have within : plen / 8 < 16 := by omega
    simp only [ne_eq, aligned, not_false_eq_true, if_true, load, store, if_pos within,
      Option.bind_some, memset, if_pos (show plen / 8 + 1 + (16 - (plen / 8 + 1)) ≤ 16 by omega),
      Option.some.injEq]
    refine (ofBytes_split old a.get (fun _ => 0) _ _).trans (ofBytes_congr fun i _ => ?_)
    simp only [prefixByte, ne_eq, aligned, not_false_eq_true, and_true]
    split
    · rfl
    · split
      · next isSplit => rw [isSplit]
      · rfl

theorem ipv6AddrCreate_eq (old p s : In6Addr) (bounded : plen ≤ 128) :
    ipv6AddrCreate old p s plen = some (ofBytes (createdByte p s plen)) := by
  have valid : (if (plen : Int) > 128 ∨ (plen : Int) < 0 then (0 : Int) else (plen : Int)) =
      plen := by
    rw [if_neg (by omega)]
  simp only [ipv6AddrCreate, valid, whole_cast, rest_cast, memcpy, Nat.zero_add,
    if_pos (show plen / 8 ≤ 16 by omega), Option.bind_eq_bind, Option.bind_some]
  by_cases aligned : plen % 8 = 0
  · simp only [aligned, ne_eq, not_true_eq_false, if_false,
      if_pos (show plen / 8 + (16 - plen / 8) ≤ 16 by omega), Option.some.injEq]
    refine (ofBytes_filled old p.get s.get _).trans (ofBytes_congr fun i _ => ?_)
    simp only [createdByte, aligned, ne_eq, not_true_eq_false, and_false, if_false]
  · have within : plen / 8 < 16 := by omega
    simp only [ne_eq, aligned, not_false_eq_true, if_true, load, store, if_pos within,
      Option.bind_some, if_pos (show plen / 8 + 1 + (16 - (plen / 8 + 1)) ≤ 16 by omega),
      Option.some.injEq]
    refine (ofBytes_split old p.get s.get _ _).trans (ofBytes_congr fun i _ => ?_)
    simp only [createdByte, ne_eq, aligned, not_false_eq_true, and_true]
    split
    · rfl
    · split
      · next isSplit => rw [isSplit]
      · rfl

theorem memcmpLoop_eq_zero {xs ys : List UInt8} (same : xs.length = ys.length) :
    memcmpLoop xs ys = 0 ↔ xs = ys := by
  induction xs generalizing ys with
  | nil =>
      cases ys with
      | nil => simp [memcmpLoop]
      | cons y ys => cases same
  | cons x xs ih =>
      cases ys with
      | nil => cases same
      | cons y ys =>
          simp only [memcmpLoop]
          by_cases equal : x = y
          · simp [equal, ih (Nat.succ.inj same)]
          · have different : x.toNat ≠ y.toNat := fun h => equal (UInt8.toNat_inj.mp h)
            simp only [ne_eq, equal, not_false_eq_true, if_true, List.cons.injEq, false_and,
              iff_false]
            omega

theorem ipv6PfxCmp_bits (a b : In6Addr) (bounded : plen ≤ 128) :
    ∃ res, ipv6PfxCmp a b plen = some res ∧ (res = 0 ↔ SameBits a b plen) := by
  have size : sizeT ((plen : Int) / 8) = plen / 8 := by
    rw [sizeT]
    omega
  have whole : memcmpLoop (a.bytes.take (plen / 8)) (b.bytes.take (plen / 8)) = 0 ↔
      a.bytes.take (plen / 8) = b.bytes.take (plen / 8) := by
    apply memcmpLoop_eq_zero
    rw [List.length_take, List.length_take, a.size, b.size]
  rw [← ipv6PfxCmp_eq_false a b bounded]
  simp only [ipv6PfxCmp, size, memcmp, whole_cast, rest_cast,
    if_pos (show plen / 8 ≤ 16 by omega), Option.bind_eq_bind, Option.bind_some, Ha.ipv6PfxCmp]
  by_cases differ : a.bytes.take (plen / 8) = b.bytes.take (plen / 8)
  · by_cases aligned : plen % 8 = 0
    · exact ⟨_, by rw [if_pos (.inr aligned)], by rw [whole]; simp [differ, aligned]⟩
    · have within : plen / 8 < 16 := by omega
      refine ⟨(((a.get (plen / 8) ^^^ b.get (plen / 8)).toNat &&& 0xff00 >>> (plen % 8) : Nat) :
        Int), ?_, ?_⟩
      · have none : ¬(memcmpLoop (a.bytes.take (plen / 8)) (b.bytes.take (plen / 8)) ≠ 0 ∨
            plen % 8 = 0) := by
          rw [ne_eq, whole]
          simp [differ, aligned]
        rw [if_neg none]
        simp only [load, if_pos within, Option.bind_some]
      · simp [differ, aligned]
  · exact ⟨_, by rw [if_pos (.inl (mt whole.mp differ))], by simp [whole, differ]⟩

/-! ## The bits -/

theorem addrBit_masked (a : In6Addr) {k : Nat} (inside : k < 128) :
    addrBit (ofBytes (prefixByte a plen)) k = (decide (k < plen) && addrBit a k) := by
  rw [addrBit_ofBytes _ inside, prefixByte]
  by_cases whole : k / 8 < plen / 8
  · rw [if_pos whole, decide_eq_true (show k < plen by omega), Bool.true_and, addrBit]
  · rw [if_neg whole]
    by_cases isSplit : k / 8 = plen / 8 ∧ plen % 8 ≠ 0
    · rw [if_pos isSplit, keepBits_testBit _ (by omega) (by omega), addrBit]
      congr 1
      rw [decide_eq_decide]
      omega
    · rw [if_neg isSplit, decide_eq_false (show ¬k < plen by omega), Bool.false_and]
      exact Nat.zero_testBit _

theorem addrBit_created (p s : In6Addr) {k : Nat} (inside : k < 128) :
    addrBit (ofBytes (createdByte p s plen)) k =
      if k < plen then addrBit p k else addrBit s k := by
  rw [addrBit_ofBytes _ inside, createdByte]
  by_cases whole : k / 8 < plen / 8
  · rw [if_pos whole, if_pos (show k < plen by omega), addrBit]
  · rw [if_neg whole]
    by_cases isSplit : k / 8 = plen / 8 ∧ plen % 8 ≠ 0
    · rw [if_pos isSplit, UInt8.toNat_or, Nat.testBit_or, keepBits_testBit _ (by omega) (by omega),
        dropBits_testBit _ (by omega) (by omega)]
      by_cases before : k < plen
      · rw [if_pos before, decide_eq_true (show k % 8 < plen % 8 by omega),
          decide_eq_false (show ¬plen % 8 ≤ k % 8 by omega), Bool.true_and, Bool.false_and,
          Bool.or_false, addrBit]
      · rw [if_neg before, decide_eq_false (show ¬k % 8 < plen % 8 by omega),
          decide_eq_true (show plen % 8 ≤ k % 8 by omega), Bool.true_and, Bool.false_and,
          Bool.false_or, addrBit]
    · rw [if_neg isSplit, if_neg (show ¬k < plen by omega), addrBit]

theorem sameBits_created (p s : In6Addr) (bounded : plen ≤ 128) :
    SameBits (ofBytes (createdByte p s plen)) (ofBytes (prefixByte p plen)) plen := by
  intro k before
  rw [addrBit_created p s (by omega), addrBit_masked p (by omega), if_pos before,
    decide_eq_true before, Bool.true_and]

def PfxEqual (plen : Nat) (a b : In6Addr) : Prop := ipv6PfxCmp a b plen = some 0

theorem pfxEqual_iff (a b : In6Addr) (bounded : plen ≤ 128) :
    PfxEqual plen a b ↔ SameBits a b plen := by
  obtain ⟨res, compared, zero⟩ := ipv6PfxCmp_bits a b bounded
  rw [PfxEqual, compared, Option.some.injEq, zero]

theorem pfxEqual_equivalence (bounded : plen ≤ 128) : Equivalence (PfxEqual plen) := by
  refine ⟨fun a => ?_, fun {a b} same => ?_, fun {a b c} first second => ?_⟩
  · exact (pfxEqual_iff a a bounded).mpr fun _ _ => rfl
  · rw [pfxEqual_iff _ _ bounded] at same ⊢
    exact fun k before => (same k before).symm
  · rw [pfxEqual_iff _ _ bounded] at first second ⊢
    exact fun k before => (first k before).trans (second k before)

theorem PfxEqual.shorter {a b : In6Addr} (same : PfxEqual plen a b) (bounded : plen ≤ 128)
    {q : Nat} (short : q ≤ plen) : PfxEqual q a b := by
  rw [pfxEqual_iff a b bounded] at same
  rw [pfxEqual_iff a b (short.trans bounded)]
  exact fun k before => same k (by omega)

theorem dhaadGenHaAnycast_inPrefix (old pfx : In6Addr) (bounded : plen ≤ 128) :
    ∃ anycast, dhaadGenHaAnycast old pfx plen = some anycast ∧ PfxEqual plen anycast pfx := by
  refine ⟨_, ipv6AddrCreate_eq old pfx _ bounded, ?_⟩
  rw [pfxEqual_iff _ _ bounded]
  intro k before
  rw [addrBit_created pfx _ (by omega), if_pos before]

/-- With more than 128 bits the comparison leaves the addresses, unless a difference in their
sixteen bytes ends it before. -/
theorem ipv6PfxCmp_long (a b : In6Addr) (long : 128 < plen) (isByte : plen < 2 ^ 8) :
    ipv6PfxCmp a b plen = none ∨ ∃ res, ipv6PfxCmp a b plen = some res ∧ res ≠ 0 ∧ a ≠ b := by
  have size : sizeT ((plen : Int) / 8) = plen / 8 := by
    rw [sizeT]
    omega
  simp only [ipv6PfxCmp, size, memcmp, whole_cast, rest_cast, load, Option.bind_eq_bind]
  by_cases beyond : plen / 8 ≤ 16
  · have rest : plen % 8 ≠ 0 := by omega
    simp only [if_pos beyond, Option.bind_some, rest, or_false,
      if_neg (show ¬plen / 8 < 16 by omega), Option.bind_none]
    split
    · rename_i differ
      refine .inr ⟨_, rfl, differ, ?_⟩
      rintro rfl
      exact differ ((memcmpLoop_eq_zero rfl).mpr rfl)
    · exact .inl rfl
  · rw [if_neg beyond]
    exact .inl rfl

end Accesses

/-- The three routines agree on the first `plen` bits, and read and write nothing outside
the addresses. -/
structure PrefixOps (old a b p s : In6Addr) (plen : Nat) : Prop where
  cmp : ∃ res, ipv6PfxCmp a b plen = some res ∧ (res = 0 ↔ ∀ k < plen, addrBit a k = addrBit b k)
  equivalence : Equivalence fun a b => ipv6PfxCmp a b plen = some 0
  monotone : ∀ q ≤ plen, ipv6PfxCmp a b plen = some 0 → ipv6PfxCmp a b q = some 0
  kept : ∃ pfx, ipv6AddrPrefix old a plen = some pfx ∧
    ∀ k < 128, addrBit pfx k = if k < plen then addrBit a k else false
  created : ∃ addr, ipv6AddrCreate old p s plen = some addr ∧
    ∀ k < 128, addrBit addr k = if k < plen then addrBit p k else addrBit s k
  together : ∃ addr pfx, ipv6AddrCreate old a s plen = some addr ∧
    ipv6AddrPrefix old a plen = some pfx ∧ ipv6PfxCmp addr pfx plen = some 0
  anycast : ∃ addr, dhaadGenHaAnycast old p plen = some addr ∧ ipv6PfxCmp addr p plen = some 0

theorem prefix_operations (old a b p s : In6Addr) {plen : Nat} (bounded : plen ≤ 128) :
    PrefixOps old a b p s plen := by
  refine ⟨ipv6PfxCmp_bits a b bounded, pfxEqual_equivalence bounded, ?_, ?_, ?_, ?_,
    dhaadGenHaAnycast_inPrefix old p bounded⟩
  · intro q short same
    exact PfxEqual.shorter same bounded short
  · refine ⟨_, ipv6AddrPrefix_eq old a bounded, ?_⟩
    intro k inside
    rw [addrBit_masked a inside]
    by_cases before : k < plen <;> simp [before]
  · exact ⟨_, ipv6AddrCreate_eq old p s bounded, fun k inside => addrBit_created p s inside⟩
  · exact ⟨_, _, ipv6AddrCreate_eq old a s bounded, ipv6AddrPrefix_eq old a bounded,
      (pfxEqual_iff _ _ bounded).mpr (sameBits_created a s bounded)⟩

/-- A prefix that ends within the eighth byte. -/
theorem prefix_operations_61 :
    PrefixOps in6addrAny dhaadGenSuffix in6addrAny dhaadEui64Suffix in6addrLoopback 61 ∧
      ipv6AddrPrefix in6addrAny dhaadGenSuffix 61 =
        some ⟨[255, 255, 255, 255, 255, 255, 255, 0xf8, 0, 0, 0, 0, 0, 0, 0, 0], rfl⟩ :=
  ⟨prefix_operations in6addrAny dhaadGenSuffix in6addrAny dhaadEui64Suffix in6addrLoopback
    (by decide), by decide⟩

end OaiPmip.PrefixBits
