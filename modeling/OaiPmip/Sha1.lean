import Mathlib.Tactic.Ring
import OaiPmip.Lib.Blocks
import OaiPmip.Lib.Wire
import OaiPmip.Types

/-!
# SHA-1: crypto.c

`transform` keeps sixteen words of the message schedule and lets its five
registers change places from one line to the next; `SHA1_update` gathers what
does not fill a block and takes whole blocks from the text itself.  The standard
states the compression over eighty words and the digest over the padded text.
-/

set_option autoImplicit false

namespace OaiPmip.Crypto

open OaiPmip.Blocks OaiPmip.Wire

/-- `SHA1_CTX`; the buffer is never filled beyond its end. -/
structure Sha1Ctx where
  h0 : UInt32
  h1 : UInt32
  h2 : UInt32
  h3 : UInt32
  h4 : UInt32
  nblocks : UInt32
  buf : Octets 64
  count : Nat
  fits : count ≤ 64

/-- `SHA1_init`; the buffer keeps what it holds. -/
def sha1Init (buf : Octets 64) : Sha1Ctx where
  h0 := 0x67452301
  h1 := 0xefcdab89
  h2 := 0x98badcfe
  h3 := 0x10325476
  h4 := 0xc3d2e1f0
  nblocks := 0
  buf := buf
  count := 0
  fits := Nat.zero_le 64

def rol (x : UInt32) (n : UInt32) : UInt32 := x <<< n ||| x >>> (32 - n)

def k1 : UInt32 := 0x5A827999
def k2 : UInt32 := 0x6ED9EBA1
def k3 : UInt32 := 0x8F1BBCDC
def k4 : UInt32 := 0xCA62C1D6

def f1 (x y z : UInt32) : UInt32 := z ^^^ (x &&& (y ^^^ z))
def f2 (x y z : UInt32) : UInt32 := x ^^^ y ^^^ z
def f3 (x y z : UInt32) : UInt32 := x &&& y ||| z &&& (x ||| y)
def f4 (x y z : UInt32) : UInt32 := x ^^^ y ^^^ z

/-- The registers and `x[16]`. -/
structure Work where
  a : UInt32
  b : UInt32
  c : UInt32
  d : UInt32
  e : UInt32
  x : Nat → UInt32

/-- The macro `M`: the word it stores at `i & 0x0f`. -/
def macroM (x : Nat → UInt32) (i : Nat) : UInt32 :=
  let tm := x (i &&& 0x0f) ^^^ x ((i - 14) &&& 0x0f) ^^^ x ((i - 8) &&& 0x0f) ^^^
    x ((i - 3) &&& 0x0f)
  rol tm 1

/-- The macro `R`: what it makes of `b` and `e`. -/
def macroR (a b c d e : UInt32) (f : UInt32 → UInt32 → UInt32 → UInt32) (k m : UInt32) :
    UInt32 × UInt32 :=
  (rol b 30, e + (rol a 5 + f b c d + k + m))

/-- The function and the constant of line `i`. -/
def lineF (i : Nat) : UInt32 → UInt32 → UInt32 → UInt32 :=
  if i < 20 then f1 else if i < 40 then f2 else if i < 60 then f3 else f4

def lineK (i : Nat) : UInt32 :=
  if i < 20 then k1 else if i < 40 then k2 else if i < 60 then k3 else k4

/-- The last argument of line `i`: `x[i]` or `M(i)`. -/
def lineX (i : Nat) (x : Nat → UInt32) : Nat → UInt32 :=
  if i < 16 then x else Function.update x (i &&& 0x0f) (macroM x i)

/-- Line `i` of the eighty: its registers are those of the line before, turned by one place. -/
def line (i : Nat) (w : Work) : Work :=
  let x := lineX i w.x
  let m := x (i &&& 0x0f)
  match i % 5 with
  | 0 =>
      let (b, e) := macroR w.a w.b w.c w.d w.e (lineF i) (lineK i) m
      { w with b := b, e := e, x := x }
  | 1 =>
      let (a, d) := macroR w.e w.a w.b w.c w.d (lineF i) (lineK i) m
      { w with a := a, d := d, x := x }
  | 2 =>
      let (e, c) := macroR w.d w.e w.a w.b w.c (lineF i) (lineK i) m
      { w with e := e, c := c, x := x }
  | 3 =>
      let (d, b) := macroR w.c w.d w.e w.a w.b (lineF i) (lineK i) m
      { w with d := d, b := b, x := x }
  | _ =>
      let (c, a) := macroR w.b w.c w.d w.e w.a (lineF i) (lineK i) m
      { w with c := c, a := a, x := x }

/-- Word `i` of the block: copied byte by byte on a little-endian host, as a
whole on a big-endian one. -/
def loadWord (order : ByteOrder) (data : List UInt8) (i : Nat) : UInt32 :=
  let byte := fun j => data.getD (4 * i + j) 0
  match order with
  | .little => ByteOrder.little.load32 (byte 3) (byte 2) (byte 1) (byte 0)
  | .big => ByteOrder.big.load32 (byte 0) (byte 1) (byte 2) (byte 3)

def lines : Nat → Work → Work
  | 0, w => w
  | i + 1, w => line i (lines i w)

def startOf (order : ByteOrder) (hd : Sha1Ctx) (data : Octets 64) : Work :=
  ⟨hd.h0, hd.h1, hd.h2, hd.h3, hd.h4, loadWord order data.bytes⟩

def Sha1Ctx.chainVars (hd : Sha1Ctx) (w : Work) : Sha1Ctx :=
  { hd with
    h0 := hd.h0 + w.a
    h1 := hd.h1 + w.b
    h2 := hd.h2 + w.c
    h3 := hd.h3 + w.d
    h4 := hd.h4 + w.e }

def transform (order : ByteOrder) (hd : Sha1Ctx) (data : Octets 64) : Sha1Ctx :=
  hd.chainVars (lines 80 (startOf order hd data))

/-- `ctx->buf[ctx->count++] = x`. -/
def Sha1Ctx.push (ctx : Sha1Ctx) (x : UInt8) (room : ctx.count < 64) : Sha1Ctx :=
  { ctx with
    buf := ⟨ctx.buf.bytes.set ctx.count x, by rw [List.length_set, ctx.buf.size]⟩
    count := ctx.count + 1
    fits := room }

def Sha1Ctx.counted (ctx : Sha1Ctx) : Sha1Ctx :=
  { ctx with count := 0, nblocks := ctx.nblocks + 1, fits := Nat.zero_le 64 }

/-- `SHA1_update(ctx, NULL, 0)`: flush the buffer. -/
def flush (order : ByteOrder) (ctx : Sha1Ctx) : Sha1Ctx :=
  if ctx.count = 64 then (transform order ctx ctx.buf).counted else ctx

/-- `for (; len && ctx->count < 64; len--)`, and what is left of the text. -/
def fill : Sha1Ctx → List UInt8 → Sha1Ctx × List UInt8
  | ctx, [] => (ctx, [])
  | ctx, x :: buf =>
      if room : ctx.count < 64 then fill (ctx.push x room) buf else (ctx, x :: buf)

/-- `while (len >= 64)`, for at most so many turns. -/
def wholeBlocks (order : ByteOrder) : Nat → Sha1Ctx → List UInt8 → Sha1Ctx × List UInt8
  | 0, ctx, buf => (ctx, buf)
  | turns + 1, ctx, buf =>
      if full : 64 ≤ buf.length then
        let data : Octets 64 := ⟨buf.take 64, List.length_take_of_le full⟩
        wholeBlocks order turns (transform order ctx data).counted (buf.drop 64)
      else (ctx, buf)

def takeIn (order : ByteOrder) (ctx : Sha1Ctx) (buf : List UInt8) : Sha1Ctx :=
  let (ctx, buf) := wholeBlocks order buf.length ctx buf
  (fill ctx buf).1

def sha1Update (order : ByteOrder) (ctx : Sha1Ctx) (buf : Option (List UInt8)) : Sha1Ctx :=
  let ctx := flush order ctx
  match buf with
  | none => ctx
  | some buf =>
      if ctx.count ≠ 0 then
        let (ctx, buf) := fill ctx buf
        let ctx := flush order ctx
        if buf = [] then ctx else takeIn order ctx buf
      else takeIn order ctx buf

theorem flush_room (order : ByteOrder) (ctx : Sha1Ctx) : (flush order ctx).count < 64 := by
  unfold flush
  split
  · exact Nat.zero_lt_succ 63
  · rename_i notFull
    have fits := ctx.fits
    omega

/-- `while (ctx->count < limit) ctx->buf[ctx->count++] = 0`, for at most so many turns. -/
def zeroTo (limit : Nat) (inside : limit ≤ 64) : Nat → Sha1Ctx → Sha1Ctx
  | 0, ctx => ctx
  | turns + 1, ctx =>
      if below : ctx.count < limit then
        zeroTo limit inside turns (ctx.push 0 (Nat.lt_of_lt_of_le below inside))
      else ctx

/-- `memset(ctx->buf, 0, 56)`. -/
def Sha1Ctx.clear (ctx : Sha1Ctx) : Sha1Ctx :=
  { ctx with
    buf := ⟨List.replicate 56 0 ++ ctx.buf.bytes.drop 56, by
      rw [List.length_append, List.length_replicate, List.length_drop, ctx.buf.size]⟩ }

/-- The eight bytes from `ctx->buf[56]` on. -/
def Sha1Ctx.putCount (ctx : Sha1Ctx) (msb lsb : UInt32) : Sha1Ctx :=
  { ctx with
    buf := ⟨ctx.buf.bytes.take 56 ++ (ByteOrder.big.store32 msb ++ ByteOrder.big.store32 lsb), by
      rw [List.length_append, List.length_take, ctx.buf.size]
      rfl⟩ }

def bitCount (ctx : Sha1Ctx) : UInt32 × UInt32 :=
  let t := ctx.nblocks
  let lsb := t <<< 6
  let msb := t >>> 26
  let t := lsb
  let lsb := lsb + UInt32.ofNat ctx.count
  let msb := if lsb < t then msb + 1 else msb
  let t := lsb
  let lsb := lsb <<< 3
  let msb := msb <<< 3
  (msb ||| t >>> 29, lsb)

/-- The macro `X`. -/
def macroX (order : ByteOrder) (h : UInt32) : List UInt8 :=
  match order with
  | .little => [(h >>> 24).toUInt8, (h >>> 16).toUInt8, (h >>> 8).toUInt8, h.toUInt8]
  | .big => ByteOrder.big.store32 h

def digestOf (order : ByteOrder) (ctx : Sha1Ctx) : List UInt8 :=
  macroX order ctx.h0 ++ macroX order ctx.h1 ++ macroX order ctx.h2 ++ macroX order ctx.h3 ++
    macroX order ctx.h4

def pad (order : ByteOrder) (ctx : Sha1Ctx) (room : ctx.count < 64) : Sha1Ctx :=
  let marked := ctx.push 0x80 room
  if ctx.count < 56 then zeroTo 56 (by decide) 56 marked
  else (flush order (zeroTo 64 (Nat.le_refl 64) 64 marked)).clear

/-- `SHA1_final`: the digest. -/
def sha1Final (order : ByteOrder) (ctx : Sha1Ctx) : List UInt8 :=
  let room := flush_room order ctx
  let ctx := flush order ctx
  let (msb, lsb) := bitCount ctx
  let ctx := (pad order ctx room).putCount msb lsb
  digestOf order (transform order ctx ctx.buf)

/-! ## The compression of the standard -/

/-- The working variables, and the five words of the hash value. -/
structure Vars where
  a : UInt32
  b : UInt32
  c : UInt32
  d : UInt32
  e : UInt32
  deriving DecidableEq

def ch (x y z : UInt32) : UInt32 := (x &&& y) ^^^ (~~~x &&& z)
def parity (x y z : UInt32) : UInt32 := x ^^^ y ^^^ z
def maj (x y z : UInt32) : UInt32 := (x &&& y) ^^^ (x &&& z) ^^^ (y &&& z)

def roundF (t : Nat) : UInt32 → UInt32 → UInt32 → UInt32 :=
  if t < 20 then ch else if t < 40 then parity else if t < 60 then maj else parity

def schedule (word : Nat → UInt32) (t : Nat) : UInt32 :=
  if t < 16 then word t
  else rol (schedule word (t - 3) ^^^ schedule word (t - 8) ^^^ schedule word (t - 14) ^^^
    schedule word (t - 16)) 1

/-- Round `t`, with word `w` of the schedule. -/
def Vars.round (t : Nat) (w : UInt32) (v : Vars) : Vars where
  a := rol v.a 5 + roundF t v.b v.c v.d + v.e + lineK t + w
  b := v.a
  c := rol v.b 30
  d := v.c
  e := v.d

def Vars.rounds (word : Nat → UInt32) : Nat → Vars → Vars
  | 0, v => v
  | t + 1, v => (v.rounds word t).round t (schedule word t)

def Vars.add (u v : Vars) : Vars :=
  ⟨u.a + v.a, u.b + v.b, u.c + v.c, u.d + v.d, u.e + v.e⟩

/-- Word `i` of a block, the high byte first. -/
def blockWord (block : List UInt8) (i : Nat) : UInt32 :=
  join32 (block.getD (4 * i) 0) (block.getD (4 * i + 1) 0) (block.getD (4 * i + 2) 0)
    (block.getD (4 * i + 3) 0)

def compress (v : Vars) (block : List UInt8) : Vars := v.add (v.rounds (blockWord block) 80)

theorem f1_eq_ch (x y z : UInt32) : f1 x y z = ch x y z := by
  apply UInt32.toBitVec_inj.mp
  simp only [f1, ch, UInt32.toBitVec_xor, UInt32.toBitVec_and, UInt32.toBitVec_not]
  ext i bound
  simp only [BitVec.getElem_xor, BitVec.getElem_and, BitVec.getElem_not]
  cases x.toBitVec[i] with
  | true => cases z.toBitVec[i] <;> simp
  | false => simp

theorem f3_eq_maj (x y z : UInt32) : f3 x y z = maj x y z := by
  apply UInt32.toBitVec_inj.mp
  simp only [f3, maj, UInt32.toBitVec_xor, UInt32.toBitVec_and, UInt32.toBitVec_or]
  ext i bound
  simp only [BitVec.getElem_xor, BitVec.getElem_and, BitVec.getElem_or]
  cases x.toBitVec[i] with
  | true => cases y.toBitVec[i] <;> simp
  | false => cases y.toBitVec[i] <;> simp

theorem lineF_eq (t : Nat) (x y z : UInt32) : lineF t x y z = roundF t x y z := by
  simp only [lineF, roundF]
  split
  · exact f1_eq_ch x y z
  · split
    · rfl
    · split
      · exact f3_eq_maj x y z
      · rfl

theorem loadWord_eq (order : ByteOrder) (data : List UInt8) :
    loadWord order data = blockWord data := by
  funext i
  cases order with
  | little => rfl
  | big => rfl

theorem schedule_first {word : Nat → UInt32} {t : Nat} (first : t < 16) :
    schedule word t = word t := by
  rw [schedule, if_pos first]

theorem schedule_later {word : Nat → UInt32} {t : Nat} (later : 16 ≤ t) :
    schedule word t = rol (schedule word (t - 3) ^^^ schedule word (t - 8) ^^^
      schedule word (t - 14) ^^^ schedule word (t - 16)) 1 := by
  rw [schedule, if_neg (by omega)]

/-- The last sixteen words of the schedule up to word `i`, each at its place. -/
def Window (word : Nat → UInt32) (i : Nat) (x : Nat → UInt32) : Prop :=
  ∀ t, t < max i 16 → i ≤ t + 16 → x (t &&& 0x0f) = schedule word t

theorem and_0x0f (i : Nat) : i &&& 0x0f = i % 16 := Nat.and_two_pow_sub_one_eq_mod i 4

theorem window_zero (word : Nat → UInt32) : Window word 0 word := by
  intro t early _
  have first : t < 16 := by omega
  rw [and_0x0f, Nat.mod_eq_of_lt first, schedule_first first]

/-- The word of line `i` is word `i` of the schedule, and the window moves on. -/
theorem Window.line {word x : Nat → UInt32} {i : Nat} (window : Window word i x) :
    lineX i x (i &&& 0x0f) = schedule word i ∧ Window word (i + 1) (lineX i x) := by
  by_cases first : i < 16
  · rw [lineX, if_pos first]
    refine ⟨window i (by omega) (by omega), ?_⟩
    intro t early late
    exact window t (by omega) (by omega)
  · have oldest := window (i - 16) (by omega) (by omega)
    have second := window (i - 14) (by omega) (by omega)
    have third := window (i - 8) (by omega) (by omega)
    have fourth := window (i - 3) (by omega) (by omega)
    have sameSlot : (i - 16) &&& 0x0f = i &&& 0x0f := by
      rw [and_0x0f, and_0x0f]
      omega
    rw [sameSlot] at oldest
    have stored : macroM x i = schedule word i := by
      rw [schedule_later (by omega), macroM, oldest, second, third, fourth]
      congr 1
      ac_rfl
    rw [lineX, if_neg first]
    refine ⟨by rw [Function.update_self, stored], ?_⟩
    intro t early late
    by_cases newest : t = i
    · rw [newest, Function.update_self, stored]
    · have otherSlot : t &&& 0x0f ≠ i &&& 0x0f := by
        rw [and_0x0f, and_0x0f]
        omega
      rw [Function.update_of_ne otherSlot]
      exact window t (by omega) (by omega)

/-- The registers in the order of the arguments of line `i`. -/
def Work.turned (i : Nat) (w : Work) : Vars :=
  match i % 5 with
  | 0 => ⟨w.a, w.b, w.c, w.d, w.e⟩
  | 1 => ⟨w.e, w.a, w.b, w.c, w.d⟩
  | 2 => ⟨w.d, w.e, w.a, w.b, w.c⟩
  | 3 => ⟨w.c, w.d, w.e, w.a, w.b⟩
  | _ => ⟨w.b, w.c, w.d, w.e, w.a⟩

theorem turned_of_mod {i : Nat} {w : Work} (back : i % 5 = 0) :
    w.turned i = ⟨w.a, w.b, w.c, w.d, w.e⟩ := by
  simp only [Work.turned, back]

@[simp] theorem line_x (i : Nat) (w : Work) : (line i w).x = lineX i w.x := by
  simp only [line]
  split <;> rfl

/-- A line is a round: it turns the registers instead of moving their contents. -/
theorem turned_line (i : Nat) (w : Work) :
    (line i w).turned (i + 1) = (w.turned i).round i (lineX i w.x (i &&& 0x0f)) := by
  have sum : ∀ u f e k m : UInt32, e + (u + f + k + m) = u + f + e + k + m := by
    intro u f e k m
    ac_rfl
  have place : i % 5 = 0 ∨ i % 5 = 1 ∨ i % 5 = 2 ∨ i % 5 = 3 ∨ i % 5 = 4 := by omega
  rcases place with here | here | here | here | here
  · have next : (i + 1) % 5 = 1 := by omega
    simp only [line, Work.turned, here, next, macroR, Vars.round, sum, lineF_eq]
  · have next : (i + 1) % 5 = 2 := by omega
    simp only [line, Work.turned, here, next, macroR, Vars.round, sum, lineF_eq]
  · have next : (i + 1) % 5 = 3 := by omega
    simp only [line, Work.turned, here, next, macroR, Vars.round, sum, lineF_eq]
  · have next : (i + 1) % 5 = 4 := by omega
    simp only [line, Work.turned, here, next, macroR, Vars.round, sum, lineF_eq]
  · have next : (i + 1) % 5 = 0 := by omega
    simp only [line, Work.turned, here, next, macroR, Vars.round, sum, lineF_eq]

theorem lines_spec (i : Nat) (w : Work) :
    (lines i w).turned i = (w.turned 0).rounds w.x i ∧ Window w.x i (lines i w).x := by
  induction i with
  | zero => exact ⟨rfl, window_zero w.x⟩
  | succ i ih =>
      obtain ⟨registers, window⟩ := ih
      obtain ⟨word, moved⟩ := window.line
      rw [lines, line_x]
      refine ⟨?_, moved⟩
      rw [turned_line, registers, word, Vars.rounds]

def Sha1Ctx.vars (ctx : Sha1Ctx) : Vars := ⟨ctx.h0, ctx.h1, ctx.h2, ctx.h3, ctx.h4⟩

theorem chainVars_spec (hd : Sha1Ctx) (w : Work) :
    (hd.chainVars w).vars = hd.vars.add ⟨w.a, w.b, w.c, w.d, w.e⟩ ∧
      (hd.chainVars w).nblocks = hd.nblocks ∧ (hd.chainVars w).buf = hd.buf ∧
      (hd.chainVars w).count = hd.count := ⟨rfl, rfl, rfl, rfl⟩

/-- `transform` is the compression of the standard, on either kind of host, and
leaves the rest of the context alone. -/
theorem transform_compress (order : ByteOrder) (hd : Sha1Ctx) (data : Octets 64) :
    (transform order hd data).vars = compress hd.vars data.bytes ∧
      (transform order hd data).nblocks = hd.nblocks ∧
      (transform order hd data).buf = hd.buf ∧ (transform order hd data).count = hd.count := by
  have rounds := (lines_spec 80 (startOf order hd data)).1
  have start : (startOf order hd data).turned 0 = hd.vars := rfl
  have words : (startOf order hd data).x = loadWord order data.bytes := rfl
  rw [turned_of_mod (by decide), start, words, loadWord_eq] at rounds
  rw [transform, compress, ← rounds]
  exact chainVars_spec hd _

/-! ## The text taken in so far -/

def Vars.init : Vars := ⟨0x67452301, 0xefcdab89, 0x98badcfe, 0x10325476, 0xc3d2e1f0⟩

/-- The context is that of a text: its whole blocks are in the chaining
variables and counted, and the rest is in the buffer. -/
def Sha1Ctx.Takes (ctx : Sha1Ctx) (text : List UInt8) (k : Nat) : Prop :=
  Absorbed 64 compress Vars.init text k ctx.vars (ctx.buf.bytes.take ctx.count) ∧
    ctx.nblocks = UInt32.ofNat k

section Takes
variable {ctx : Sha1Ctx} {text : List UInt8} {k : Nat}

theorem takes_sha1Init (buf : Octets 64) : (sha1Init buf).Takes [] 0 := ⟨.nothing, rfl⟩

theorem Sha1Ctx.Takes.length (takes : ctx.Takes text k) : text.length = 64 * k + ctx.count := by
  have whole := takes.1.length
  have fits := ctx.fits
  rw [List.length_take, ctx.buf.size] at whole
  omega

theorem Sha1Ctx.Takes.push (takes : ctx.Takes text k) (x : UInt8) (room : ctx.count < 64) :
    (ctx.push x room).Takes (text ++ [x]) k := by
  have inside : ctx.count < ctx.buf.bytes.length := by rw [ctx.buf.size]; exact room
  have buffered : (ctx.push x room).buf.bytes.take (ctx.push x room).count =
      ctx.buf.bytes.take ctx.count ++ [x] := by
    change (ctx.buf.bytes.set ctx.count x).take (ctx.count + 1) = _
    rw [List.take_succ_eq_append_getElem (by rw [List.length_set]; exact inside),
      List.getElem_set_self, List.take_set_of_le (Nat.le_refl _)]
  refine ⟨?_, takes.2⟩
  rw [buffered]
  exact takes.1.append [x]

theorem takes_block {data : Octets 64} (order : ByteOrder)
    (absorbed : Absorbed 64 compress Vars.init text k ctx.vars data.bytes)
    (count : ctx.nblocks = UInt32.ofNat k) :
    (transform order ctx data).counted.Takes text (k + 1) := by
  obtain ⟨vars, nblocks, _⟩ := transform_compress order ctx data
  refine ⟨?_, ?_⟩
  · have taken := absorbed.block data.size
    rw [← vars] at taken
    exact taken
  · change (transform order ctx data).nblocks + 1 = _
    rw [nblocks, count]
    exact (UInt32.ofNat_add k 1).symm

theorem Sha1Ctx.Takes.flush (takes : ctx.Takes text k) (order : ByteOrder) :
    ∃ k, (flush order ctx).Takes text k := by
  unfold Crypto.flush
  split
  · rename_i full
    have buffered := takes.1
    rw [full, List.take_of_length_le (Nat.le_of_eq ctx.buf.size)] at buffered
    exact ⟨k + 1, takes_block order buffered takes.2⟩
  · exact ⟨k, takes⟩

theorem Sha1Ctx.Takes.fill {buf : List UInt8} (takes : ctx.Takes text k) :
    ∃ used, buf = used ++ (fill ctx buf).2 ∧ (fill ctx buf).1.Takes (text ++ used) k ∧
      (fill ctx buf).1.count = ctx.count + used.length ∧
      ((fill ctx buf).2 = [] ∨ (fill ctx buf).1.count = 64) := by
  induction buf generalizing ctx text with
  | nil => exact ⟨[], rfl, by rw [List.append_nil]; exact takes, rfl, .inl rfl⟩
  | cons x buf ih =>
      by_cases room : ctx.count < 64
      · obtain ⟨used, split, after, count, stops⟩ := ih (takes.push x room)
        rw [Crypto.fill, dif_pos room]
        refine ⟨x :: used, by rw [List.cons_append, ← split], ?_, ?_, stops⟩
        · rw [List.append_cons]
          exact after
        · rw [count, List.length_cons]
          change ctx.count + 1 + used.length = _
          omega
      · have fits := ctx.fits
        rw [Crypto.fill, dif_neg room]
        exact ⟨[], rfl, by rw [List.append_nil]; exact takes, rfl,
          .inr (Nat.le_antisymm fits (Nat.not_lt.mp room))⟩

theorem Sha1Ctx.Takes.wholeBlocks {buf : List UInt8} {turns : Nat} (order : ByteOrder)
    (takes : ctx.Takes text k) (empty : ctx.count = 0) (enough : buf.length ≤ turns) :
    ∃ used k, buf = used ++ (wholeBlocks order turns ctx buf).2 ∧
      (wholeBlocks order turns ctx buf).1.Takes (text ++ used) k ∧
      (wholeBlocks order turns ctx buf).1.count = 0 ∧
      (wholeBlocks order turns ctx buf).2.length < 64 := by
  induction turns generalizing ctx text k buf with
  | zero =>
      refine ⟨[], k, rfl, by rw [List.append_nil]; exact takes, empty, ?_⟩
      change buf.length < 64
      omega
  | succ turns ih =>
      rw [Crypto.wholeBlocks]
      by_cases full : 64 ≤ buf.length
      · rw [dif_pos full]
        have here := takes.1.append (buf.take 64)
        rw [empty, List.take_zero, List.nil_append] at here
        have block :=
          @takes_block _ _ _ ⟨buf.take 64, List.length_take_of_le full⟩ order here takes.2
        have fewer : (buf.drop 64).length ≤ turns := by
          rw [List.length_drop]
          omega
        obtain ⟨used, k', split, after⟩ := ih block rfl fewer
        refine ⟨buf.take 64 ++ used, k', ?_, ?_⟩
        · rw [List.append_assoc, ← split, List.take_append_drop]
        · rw [← List.append_assoc]
          exact after
      · rw [dif_neg full]
        exact ⟨[], k, rfl, by rw [List.append_nil]; exact takes, empty, Nat.not_le.mp full⟩

theorem Sha1Ctx.Takes.takeIn {buf : List UInt8} (order : ByteOrder) (takes : ctx.Takes text k)
    (empty : ctx.count = 0) : ∃ k, (takeIn order ctx buf).Takes (text ++ buf) k := by
  obtain ⟨used, k', split, after, none, short⟩ := takes.wholeBlocks order empty (Nat.le_refl _)
  obtain ⟨rest, restSplit, all, count, stops⟩ :=
    @Sha1Ctx.Takes.fill _ _ _ (Crypto.wholeBlocks order buf.length ctx buf).2 after
  rw [Crypto.takeIn]
  refine ⟨k', ?_⟩
  have ended : (Crypto.fill (Crypto.wholeBlocks order buf.length ctx buf).1
      (Crypto.wholeBlocks order buf.length ctx buf).2).2 = [] := by
    rcases stops with done | full
    · exact done
    · have whole := congrArg List.length restSplit
      rw [List.length_append] at whole
      omega
  rw [ended, List.append_nil] at restSplit
  rw [List.append_assoc, ← restSplit, ← split] at all
  exact all

/-- However the text is cut, the context is that of the whole text. -/
theorem Sha1Ctx.Takes.update (order : ByteOrder) (takes : ctx.Takes text k)
    (buf : Option (List UInt8)) :
    ∃ k, (sha1Update order ctx buf).Takes (text ++ buf.getD []) k := by
  obtain ⟨k, flushed⟩ := takes.flush order
  cases buf with
  | none => exact ⟨k, by rw [Option.getD_none, List.append_nil]; exact flushed⟩
  | some buf =>
      simp only [sha1Update, Option.getD_some]
      split
      · obtain ⟨used, split, filled, count, stops⟩ := @Sha1Ctx.Takes.fill _ _ _ buf flushed
        obtain ⟨k', again⟩ := filled.flush order
        split
        · rename_i ended
          rw [ended, List.append_nil] at split
          rw [← split] at again
          exact ⟨k', again⟩
        · rename_i left
          have full := stops.resolve_left left
          have empty :
              (Crypto.flush order (Crypto.fill (Crypto.flush order ctx) buf).1).count = 0 := by
            rw [Crypto.flush, if_pos full]
            rfl
          obtain ⟨k'', all⟩ := again.takeIn order empty
          rw [List.append_assoc, ← split] at all
          exact ⟨k'', all⟩
      · rename_i empty
        exact flushed.takeIn order (Decidable.not_not.mp empty)

end Takes

def bitLength (bytes : Nat) : List UInt8 :=
  ByteOrder.big.store32 (UInt32.ofNat (8 * bytes / 2 ^ 32)) ++
    ByteOrder.big.store32 (UInt32.ofNat (8 * bytes))

def markedText (text : List UInt8) : List UInt8 :=
  text ++ 0x80 :: List.replicate ((119 - text.length % 64) % 64) 0

def Vars.digest (v : Vars) : List UInt8 :=
  ByteOrder.big.store32 v.a ++ ByteOrder.big.store32 v.b ++ ByteOrder.big.store32 v.c ++
    ByteOrder.big.store32 v.d ++ ByteOrder.big.store32 v.e

/-- The standard's digest of a text that is said to have `bytes` bytes. -/
def sha1With (bytes : Nat) (text : List UInt8) : List UInt8 :=
  (absorbAll 64 compress Vars.init (markedText text ++ bitLength bytes)).digest

def sha1 (text : List UInt8) : List UInt8 := sha1With text.length text

theorem sha1_size (text : List UInt8) : (sha1 text).length = 20 := rfl

section Final
variable {ctx : Sha1Ctx} {text : List UInt8} {k : Nat}

theorem macroX_eq (order : ByteOrder) (h : UInt32) :
    macroX order h = ByteOrder.big.store32 h := by
  cases order with
  | little => rfl
  | big => rfl

theorem bitCount_eq (takes : ctx.Takes text k) (room : ctx.count < 64) :
    bitCount ctx = (UInt32.ofNat (8 * (text.length % 2 ^ 38) / 2 ^ 32),
      UInt32.ofNat (8 * (text.length % 2 ^ 38))) := by
  have size := takes.length
  have blocks : ctx.nblocks.toNat = k % 2 ^ 32 := by rw [takes.2, UInt32.toNat_ofNat']
  have bytes : text.length % 2 ^ 38 = k % 2 ^ 32 * 64 + ctx.count := by omega
  generalize k % 2 ^ 32 = q at blocks bytes
  have qSmall : q < 2 ^ 32 := blocks ▸ ctx.nblocks.toNat_lt
  have low : (ctx.nblocks <<< 6).toNat = q * 64 % 2 ^ 32 := by
    change ctx.nblocks.toNat <<< 6 % 2 ^ 32 = _
    rw [blocks, Nat.shiftLeft_eq]
  have high : (ctx.nblocks >>> 26).toNat = q / 2 ^ 26 := by
    change ctx.nblocks.toNat >>> 26 = _
    rw [blocks, Nat.shiftRight_eq_div_pow]
  have sum : (ctx.nblocks <<< 6 + UInt32.ofNat ctx.count).toNat = q * 64 % 2 ^ 32 + ctx.count := by
    rw [UInt32.toNat_add, low, UInt32.toNat_ofNat']
    omega
  have noCarry : ¬ctx.nblocks <<< 6 + UInt32.ofNat ctx.count < ctx.nblocks <<< 6 := by
    rw [UInt32.lt_iff_toNat_lt, sum, low]
    omega
  rw [bitCount, if_neg noCarry, bytes]
  refine Prod.ext (UInt32.toNat_inj.mp ?_) (UInt32.toNat_inj.mp ?_)
  · change (ctx.nblocks >>> 26).toNat <<< 3 % 2 ^ 32 |||
      (ctx.nblocks <<< 6 + UInt32.ofNat ctx.count).toNat >>> 29 = _
    have small : (q * 64 % 2 ^ 32 + ctx.count) / 2 ^ 29 < 2 ^ 3 := by omega
    have shifted : (q / 2 ^ 26) <<< 3 % 2 ^ 32 = (q / 2 ^ 26) <<< 3 := by
      rw [Nat.shiftLeft_eq]
      omega
    rw [high, sum, shifted, Nat.shiftRight_eq_div_pow, Nat.or_comm, lor_shiftLeft small,
      UInt32.toNat_ofNat']
    omega
  · change (ctx.nblocks <<< 6 + UInt32.ofNat ctx.count).toNat <<< 3 % 2 ^ 32 = _
    rw [sum, Nat.shiftLeft_eq, UInt32.toNat_ofNat']
    omega

theorem Sha1Ctx.Takes.zeroTo {limit turns : Nat} {inside : limit ≤ 64} (takes : ctx.Takes text k)
    (below : ctx.count ≤ limit) (enough : limit - ctx.count ≤ turns) :
    (zeroTo limit inside turns ctx).Takes (text ++ List.replicate (limit - ctx.count) 0) k ∧
      (zeroTo limit inside turns ctx).count = limit := by
  induction turns generalizing ctx text with
  | zero =>
      have reached : ctx.count = limit := by omega
      rw [Crypto.zeroTo, reached, Nat.sub_self, List.replicate_zero, List.append_nil]
      exact ⟨takes, rfl⟩
  | succ turns ih =>
      rw [Crypto.zeroTo]
      by_cases goesOn : ctx.count < limit
      · rw [dif_pos goesOn]
        have pushed := takes.push 0 (Nat.lt_of_lt_of_le goesOn inside)
        have one : limit - ctx.count = (limit - (ctx.count + 1)) + 1 := by omega
        rw [one, List.replicate_succ, List.append_cons]
        exact ih pushed goesOn (by change limit - (ctx.count + 1) ≤ turns; omega)
      · have reached : ctx.count = limit := by omega
        rw [dif_neg goesOn, reached, Nat.sub_self, List.replicate_zero, List.append_nil]
        exact ⟨takes, rfl⟩

theorem Sha1Ctx.Takes.pad (order : ByteOrder) (takes : ctx.Takes text k) (room : ctx.count < 64) :
    ∃ k, Absorbed 64 compress Vars.init (markedText text) k (pad order ctx room).vars
      ((pad order ctx room).buf.bytes.take 56) := by
  have size := takes.length
  have marked := takes.push 0x80 room
  have markedCount : (ctx.push 0x80 room).count = ctx.count + 1 := rfl
  rw [Crypto.pad]
  split
  · rename_i enough
    obtain ⟨padded, count⟩ := @Sha1Ctx.Takes.zeroTo _ _ _ 56 56 (by decide) marked
      (by omega) (by omega)
    have zeros : 56 - (ctx.push 0x80 room).count = (119 - text.length % 64) % 64 := by omega
    rw [zeros, List.append_assoc] at padded
    have absorbed := padded.1
    rw [count] at absorbed
    exact ⟨k, absorbed⟩
  · rename_i extra
    obtain ⟨padded, count⟩ := @Sha1Ctx.Takes.zeroTo _ _ _ 64 64 (Nat.le_refl 64) marked
      (by omega) (by omega)
    obtain ⟨k', flushed⟩ := padded.flush order
    have empty : (Crypto.flush order
        (Crypto.zeroTo 64 (Nat.le_refl 64) 64 (ctx.push 0x80 room))).count = 0 := by
      rw [Crypto.flush, if_pos count]
      rfl
    have absorbed := flushed.1
    rw [empty, List.take_zero] at absorbed
    have cleared := absorbed.append (List.replicate 56 0)
    have zeros : 64 - (ctx.push 0x80 room).count + 56 = (119 - text.length % 64) % 64 := by omega
    rw [List.append_assoc, List.append_assoc, List.replicate_append_replicate, zeros,
      List.nil_append] at cleared
    refine ⟨k', ?_⟩
    have first : (Crypto.flush order (Crypto.zeroTo 64 (Nat.le_refl 64) 64
        (ctx.push 0x80 room))).clear.buf.bytes.take 56 = List.replicate 56 0 := by
      rw [Sha1Ctx.clear, List.take_left' (List.length_replicate)]
    rw [first]
    exact cleared

theorem digestOf_eq (order : ByteOrder) (ctx : Sha1Ctx) :
    digestOf order ctx = ctx.vars.digest := by
  simp only [digestOf, macroX_eq]
  rfl

theorem digestOf_last {marked : List UInt8} (order : ByteOrder) (msb lsb : UInt32)
    (absorbed : Absorbed 64 compress Vars.init marked k ctx.vars (ctx.buf.bytes.take 56)) :
    digestOf order (transform order (ctx.putCount msb lsb) (ctx.putCount msb lsb).buf) =
      (absorbAll 64 compress Vars.init
        (marked ++ (ByteOrder.big.store32 msb ++ ByteOrder.big.store32 lsb))).digest := by
  have last := absorbed.append (ByteOrder.big.store32 msb ++ ByteOrder.big.store32 lsb)
  have taken := (last.block (ctx.putCount msb lsb).buf.size).all (by decide)
  rw [digestOf_eq, (transform_compress order _ _).1, taken]
  rfl

theorem Sha1Ctx.Takes.final (order : ByteOrder) (takes : ctx.Takes text k) :
    sha1Final order ctx = sha1With (text.length % 2 ^ 38) text := by
  obtain ⟨k', flushed⟩ := takes.flush order
  have room := flush_room order ctx
  obtain ⟨k'', padded⟩ := flushed.pad order room
  simp only [sha1Final, bitCount_eq flushed room]
  exact digestOf_last order _ _ padded

/-- The text of calls of `SHA1_update` one after another; a null pointer adds nothing. -/
def textOf (pieces : List (Option (List UInt8))) : List UInt8 :=
  (pieces.map fun piece => piece.getD []).flatten

theorem Sha1Ctx.Takes.updates (order : ByteOrder) (takes : ctx.Takes text k)
    (pieces : List (Option (List UInt8))) :
    ∃ k, (pieces.foldl (sha1Update order) ctx).Takes (text ++ textOf pieces) k := by
  induction pieces generalizing ctx text k with
  | nil => exact ⟨k, by rw [textOf, List.map_nil, List.flatten_nil, List.append_nil]; exact takes⟩
  | cons piece pieces ih =>
      obtain ⟨k', updated⟩ := takes.update order piece
      obtain ⟨k'', all⟩ := ih updated
      rw [List.append_assoc] at all
      exact ⟨k'', all⟩

end Final

theorem sha1Final_updates (order : ByteOrder) (buf : Octets 64)
    (pieces : List (Option (List UInt8))) :
    sha1Final order (pieces.foldl (sha1Update order) (sha1Init buf)) =
      sha1With ((textOf pieces).length % 2 ^ 38) (textOf pieces) := by
  obtain ⟨k, takes⟩ := (takes_sha1Init buf).updates order pieces
  rw [List.nil_append] at takes
  exact takes.final order

/-- The digest is the standard's, however the text is cut into pieces and
whatever the buffer held before. -/
theorem sha1_of_pieces (order : ByteOrder) (buf : Octets 64) (pieces : List (Option (List UInt8)))
    (short : (textOf pieces).length < 2 ^ 38) :
    sha1Final order (pieces.foldl (sha1Update order) (sha1Init buf)) = sha1 (textOf pieces) := by
  rw [sha1Final_updates, Nat.mod_eq_of_lt short, sha1]

/-- The first test vector of the source, in three pieces. -/
theorem sha1_abc : sha1 [0x61, 0x62, 0x63] = [0xA9, 0x99, 0x3E, 0x36, 0x47, 0x06, 0x81, 0x6A,
    0xBA, 0x3E, 0x25, 0x71, 0x78, 0x50, 0xC2, 0x6C, 0x9C, 0xD0, 0xD8, 0x9D] := by
  have pieces := sha1_of_pieces .little (Octets.zero 64) [some [0x61], none, some [0x62, 0x63]]
    (by decide)
  exact pieces.symm.trans (by decide +kernel)

end OaiPmip.Crypto
