import Mathlib.Data.List.GetD
import OaiPmip.BindAuth
import OaiPmip.CnKeys
import OaiPmip.Sha1

/-!
# HMAC-SHA1 and its users: crypto.c, keygen.c and mh.c

The key of an HMAC is copied into a buffer of the size of a digest before its
length is looked at.  The tokens and the keys of return routability and the
authenticators of binding updates are made of the digests of pieces.
-/

set_option autoImplicit false

namespace OaiPmip.Crypto

open OaiPmip.Wire

inductive Fault where
  /-- A write behind `tkey`. -/
  | tkey
  deriving DecidableEq

structure HmacSha1Ctx where
  ictx : Sha1Ctx
  pad : List UInt8

def shaDigestsize : Nat := 20
def shaBlocksize : Nat := 64

/-- `for (i = 0; i < keylen; i++) pad[i] ^= tkey[i]`, for the turns so far. -/
def xorKey (tkey : List UInt8) : Nat → List UInt8 → List UInt8
  | 0, pad => pad
  | i + 1, pad =>
      let pad := xorKey tkey i pad
      pad.set i (pad.getD i 0 ^^^ tkey.getD i 0)

/-- The contexts lie in memory that holds `old` before. -/
def hmacSha1Init (order : ByteOrder) (old : Octets 64) (key : List UInt8) :
    Except Fault HmacSha1Ctx :=
  if shaDigestsize < key.length then .error .tkey
  else
    let tkey :=
      if shaBlocksize < key.length then
        sha1Final order (sha1Update order (sha1Init old) (some key))
      else key
    let keylen := if shaBlocksize < key.length then shaDigestsize else key.length
    let ipad := xorKey tkey keylen (List.replicate shaBlocksize 0x36)
    let opad := xorKey tkey keylen (List.replicate shaBlocksize 0x5C)
    .ok ⟨sha1Update order (sha1Init old) (some ipad), opad⟩

def hmacSha1Update (order : ByteOrder) (ctx : HmacSha1Ctx) (buf : List UInt8) : HmacSha1Ctx :=
  { ctx with ictx := sha1Update order ctx.ictx (some buf) }

def hmacSha1Final (order : ByteOrder) (old : Octets 64) (ctx : HmacSha1Ctx) : List UInt8 :=
  let idigest := sha1Final order ctx.ictx
  let octx := sha1Init old
  let octx := sha1Update order octx (some ctx.pad)
  let octx := sha1Update order octx (some idigest)
  sha1Final order octx

def hmacSha1Of (order : ByteOrder) (old : Octets 64) (key : List UInt8)
    (pieces : List (List UInt8)) : Except Fault (List UInt8) := do
  let ctx ← hmacSha1Init order old key
  return hmacSha1Final order old (pieces.foldl (hmacSha1Update order) ctx)

/-! ## The standard -/

/-- A key of at most one block with zeros behind it, each byte with `mask`. -/
def blockKey (mask : UInt8) (key : List UInt8) : List UInt8 :=
  (key ++ List.replicate (shaBlocksize - key.length) 0).map (· ^^^ mask)

def hmac (key text : List UInt8) : List UInt8 :=
  sha1 (blockKey 0x5C key ++ sha1 (blockKey 0x36 key ++ text))

theorem hmac_size (key text : List UInt8) : (hmac key text).length = 20 := sha1_size _

theorem xorKey_eq (tkey : List UInt8) (mask : UInt8) (size : Nat) {i : Nat}
    (inKey : i ≤ tkey.length) (inPad : i ≤ size) :
    xorKey tkey i (List.replicate size mask) =
      (tkey.take i).map (· ^^^ mask) ++ List.replicate (size - i) mask := by
  induction i with
  | zero => rfl
  | succ i ih =>
      have here : i < tkey.length := inKey
      have length : ((tkey.take i).map (· ^^^ mask)).length = i := by
        rw [List.length_map, List.length_take]
        omega
      have one : size - i = (size - (i + 1)) + 1 := by omega
      simp only [xorKey, ih (by omega) (by omega), one, List.replicate_succ]
      have byte : ((tkey.take i).map (· ^^^ mask) ++
          mask :: List.replicate (size - (i + 1)) mask).getD i 0 = mask := by
        rw [List.getD_append_right _ _ _ _ (Nat.le_of_eq length), length, Nat.sub_self]
        rfl
      rw [byte, List.set_append_right _ _ (Nat.le_of_eq length), length, Nat.sub_self,
        List.set_cons_zero, List.take_succ_eq_append_getElem here, List.map_append,
        List.append_assoc, List.getD_eq_getElem _ _ here, UInt8.xor_comm]
      rfl

theorem xorKey_blockKey {key : List UInt8} (short : key.length ≤ shaBlocksize) (mask : UInt8) :
    xorKey key key.length (List.replicate shaBlocksize mask) = blockKey mask key := by
  rw [xorKey_eq key mask _ (Nat.le_refl _) short, blockKey, List.take_length, List.map_append,
    List.map_replicate, UInt8.zero_xor]

theorem blockKey_length {key : List UInt8} (short : key.length ≤ shaBlocksize) (mask : UInt8) :
    (blockKey mask key).length = 64 := by
  rw [blockKey, List.length_map, List.length_append, List.length_replicate]
  exact Nat.add_sub_cancel' short

theorem hmacSha1Update_foldl (order : ByteOrder) (ctx : HmacSha1Ctx) (pieces : List (List UInt8)) :
    pieces.foldl (hmacSha1Update order) ctx =
      { ctx with ictx := (pieces.map some).foldl (sha1Update order) ctx.ictx } := by
  induction pieces generalizing ctx with
  | nil => rfl
  | cons piece pieces ih =>
      rw [List.foldl_cons, ih]
      rfl

theorem textOf_some (pieces : List (List UInt8)) : textOf (pieces.map some) = pieces.flatten := by
  rw [textOf, List.map_map]
  congr 1
  exact List.map_id pieces

theorem hmacSha1Of_eq (order : ByteOrder) (old : Octets 64) (key : List UInt8)
    (pieces : List (List UInt8)) (short : pieces.flatten.length + 64 < 2 ^ 38) :
    hmacSha1Of order old key pieces =
      if 20 < key.length then .error .tkey else .ok (hmac key pieces.flatten) := by
  by_cases long : 20 < key.length
  · have tooLong : shaDigestsize < key.length := long
    rw [if_pos long, hmacSha1Of, hmacSha1Init, if_pos tooLong]
    rfl
  · have inBlock : key.length ≤ shaBlocksize := by
      rw [shaBlocksize]
      omega
    have notLong : ¬shaDigestsize < key.length := long
    have init : hmacSha1Init order old key =
        .ok ⟨sha1Update order (sha1Init old) (some (blockKey 0x36 key)), blockKey 0x5C key⟩ := by
      simp only [hmacSha1Init, if_neg notLong, if_neg (Nat.not_lt.mpr inBlock),
        xorKey_blockKey inBlock]
    have inner : sha1Final order ((pieces.map some).foldl (sha1Update order)
        (sha1Update order (sha1Init old) (some (blockKey 0x36 key)))) =
          sha1 (blockKey 0x36 key ++ pieces.flatten) := by
      have final := sha1Final_updates order old (some (blockKey 0x36 key) :: pieces.map some)
      have text : textOf (some (blockKey 0x36 key) :: pieces.map some) =
          blockKey 0x36 key ++ pieces.flatten := by
        rw [← textOf_some]
        rfl
      have small : (blockKey 0x36 key ++ pieces.flatten).length < 2 ^ 38 := by
        rw [List.length_append, blockKey_length inBlock]
        omega
      rw [text, Nat.mod_eq_of_lt small] at final
      exact final
    have outer : ∀ idigest : List UInt8, idigest.length = 20 → sha1Final order
        (sha1Update order (sha1Update order (sha1Init old) (some (blockKey 0x5C key)))
          (some idigest)) = sha1 (blockKey 0x5C key ++ idigest) := by
      intro idigest size
      have final := sha1Final_updates order old [some (blockKey 0x5C key), some idigest]
      have text : textOf [some (blockKey 0x5C key), some idigest] =
          blockKey 0x5C key ++ idigest := by
        simp only [textOf, List.map_cons, List.map_nil, Option.getD_some, List.flatten_cons,
          List.flatten_nil, List.append_nil]
      have small : (blockKey 0x5C key ++ idigest).length < 2 ^ 38 := by
        rw [List.length_append, blockKey_length inBlock, size]
        decide
      rw [text, Nat.mod_eq_of_lt small] at final
      exact final
    rw [if_neg long, hmacSha1Of, init]
    simp only [bind, Except.bind, pure, Except.pure, hmacSha1Update_foldl, hmacSha1Final, inner]
    rw [outer _ (sha1_size _), hmac]

/-- An HMAC in pieces is that of the standard.  A key longer than a digest is
written behind `tkey`, before a key longer than a block would be hashed. -/
theorem hmac_of_pieces (order : ByteOrder) (old : Octets 64) (key : List UInt8)
    (pieces : List (List UInt8)) (short : pieces.flatten.length + 64 < 2 ^ 38) :
    hmacSha1Of order old key pieces =
      if 20 < key.length then .error .tkey
      else .ok (sha1 (blockKey 0x5C key ++ sha1 (blockKey 0x36 key ++ pieces.flatten))) :=
  hmacSha1Of_eq order old key pieces short

/-- "Hi There" in two pieces, under twenty bytes 0x0b. -/
theorem hmac_hi_there : hmac (List.replicate 20 0x0b)
    [0x48, 0x69, 0x20, 0x54, 0x68, 0x65, 0x72, 0x65] =
      [0xb6, 0x17, 0x31, 0x86, 0x55, 0x05, 0x72, 0x64, 0xe2, 0x8b, 0xc0, 0xb6, 0xfb, 0x37, 0x8c,
        0x8e, 0xf1, 0x46, 0xbe, 0x00] := by
  have pieces := hmac_of_pieces .little (Octets.zero 64) (List.replicate 20 0x0b)
    [[0x48, 0x69], [0x20, 0x54, 0x68, 0x65, 0x72, 0x65]] (by decide)
  rw [if_neg (by decide)] at pieces
  exact Except.ok.inj (pieces.symm.trans (by decide +kernel))

/-! ## keygen.c and mh.c -/

def buildKgenToken (order : ByteOrder) (old : Octets 64) (keyCn : Octets 20) (addr : In6Addr)
    (nonce : List UInt8) (id : UInt8) : Except Fault (List UInt8) := do
  let tmp ← hmacSha1Of order old keyCn.bytes [addr.bytes, nonce.take Cn.nonceLength, [id]]
  return tmp.take 8

def rrMnCalcKbm (order : ByteOrder) (old : Octets 64) (keygenHoa : List UInt8)
    (keygenCoa : Option (List UInt8)) : List UInt8 :=
  let ctx := sha1Update order (sha1Init old) (some (keygenHoa.take Cn.nonceLength))
  match keygenCoa with
  | some keygenCoa => sha1Final order (sha1Update order ctx (some (keygenCoa.take Cn.nonceLength)))
  | none => sha1Final order ctx

def hashes (keyCn : Octets 20) (randBytes : Nat → List UInt8) : Cn.Crypto where
  hmacSha1 := hmac
  sha1 := sha1
  keyCn := keyCn.bytes
  randBytes := randBytes

section Keygen
variable (order : ByteOrder) (old : Octets 64) (keyCn : Octets 20) (randBytes : Nat → List UInt8)

theorem buildKgenToken_eq (addr : In6Addr) (nonce : Nat) (id : UInt8) :
    buildKgenToken order old keyCn addr (randBytes nonce) id =
      .ok ((hashes keyCn randBytes).buildKgenToken addr nonce id) := by
  have text :
      ([addr.bytes, (randBytes nonce).take Cn.nonceLength, [id]] : List (List UInt8)).flatten =
        addr.bytes ++ (randBytes nonce).take Cn.nonceLength ++ [id] := by simp
  have short :
      (addr.bytes ++ (randBytes nonce).take Cn.nonceLength ++ [id]).length + 64 < 2 ^ 38 := by
    have few : ((randBytes nonce).take Cn.nonceLength).length ≤ 8 := List.length_take_le _ _
    rw [List.length_append, List.length_append, addr.size, List.length_singleton]
    omega
  have notLong : ¬20 < keyCn.bytes.length := by
    rw [keyCn.size]
    decide
  rw [← text] at short
  rw [buildKgenToken, hmacSha1Of_eq _ _ _ _ short, if_neg notLong, text]
  rfl

theorem rrMnCalcKbm_eq (keygenHoa : List UInt8) (keygenCoa : Option (List UInt8)) :
    rrMnCalcKbm order old keygenHoa keygenCoa =
      (hashes keyCn randBytes).rrMnCalcKbm keygenHoa keygenCoa := by
  have few : ∀ token : List UInt8, (token.take Cn.nonceLength).length ≤ 8 :=
    fun token => List.length_take_le _ _
  have final := sha1Final_updates order old
    (some (keygenHoa.take Cn.nonceLength) ::
      (keygenCoa.map fun token => token.take Cn.nonceLength).toList.map some)
  have text : textOf (some (keygenHoa.take Cn.nonceLength) ::
      (keygenCoa.map fun token => token.take Cn.nonceLength).toList.map some) =
        keygenHoa.take Cn.nonceLength ++
          (keygenCoa.map fun token => token.take Cn.nonceLength).getD [] := by
    cases keygenCoa with
    | none => simp [textOf]
    | some token => simp [textOf]
  have small : (keygenHoa.take Cn.nonceLength ++
      (keygenCoa.map fun token => token.take Cn.nonceLength).getD []).length < 2 ^ 38 := by
    have first := few keygenHoa
    rw [List.length_append]
    cases keygenCoa with
    | none =>
        rw [Option.map_none, Option.getD_none, List.length_nil]
        omega
    | some token =>
        have second := few token
        rw [Option.map_some, Option.getD_some]
        omega
  rw [text, Nat.mod_eq_of_lt small] at final
  cases keygenCoa with
  | none =>
      rw [Option.map_none, Option.getD_none, List.append_nil] at final
      exact final
  | some token => exact final

end Keygen

def calculateAuthData (order : ByteOrder) (old : Octets 64) (iov : List (List UInt8))
    (coa cn : In6Addr) (key : Octets 20) : Except Fault (List UInt8) := do
  let buf ← hmacSha1Of order old key.bytes (coa.bytes :: cn.bytes :: iov)
  return buf.take Mh.mipv6DigestLen

def hmacSha1 : Mh.Hmac := fun key text => ⟨hmac key.bytes text, hmac_size _ _⟩

theorem calculateAuthData_eq (order : ByteOrder) (old : Octets 64) (iov : List (List UInt8))
    (coa cn : In6Addr) (key : Octets 20) (short : iov.flatten.length + 96 < 2 ^ 38) :
    calculateAuthData order old iov coa cn key =
      .ok (Mh.calculateAuthData hmacSha1 iov coa cn key) := by
  have text : (coa.bytes :: cn.bytes :: iov).flatten = coa.bytes ++ cn.bytes ++ iov.flatten := by
    rw [List.flatten_cons, List.flatten_cons, List.append_assoc]
  have small : (coa.bytes ++ cn.bytes ++ iov.flatten).length + 64 < 2 ^ 38 := by
    rw [List.length_append, List.length_append, coa.size, cn.size]
    omega
  have notLong : ¬20 < key.bytes.length := by
    rw [key.size]
    decide
  rw [← text] at small
  rw [calculateAuthData, hmacSha1Of_eq _ _ _ _ small, if_neg notLong, text]
  rfl

end OaiPmip.Crypto
