import OaiPmip.HnpCache

/-!
# Parsing of signalling messages, pmip_msgs.c and mh.c

A received mobility header is the memory from its first byte on and a length.
The option parser indexes its table of options that may be repeated by option
types beyond the table's end; `dupBeyond` is what lies there.
-/

set_option autoImplicit false

namespace OaiPmip.Msgs

abbrev Buffer := Nat → UInt8

structure Received where
  mh : Buffer
  len : Nat
  src : In6Addr
  dst : In6Addr
  iif : Int

def ntohs (x : UInt16) : UInt16 := x <<< 8 ||| x >>> 8

def load16 (mh : Buffer) (i : Nat) : UInt16 :=
  (mh i).toUInt16 ||| (mh (i + 1)).toUInt16 <<< 8

def load32 (mh : Buffer) (i : Nat) : UInt32 :=
  (mh i).toUInt32 ||| (mh (i + 1)).toUInt32 <<< 8 ||| (mh (i + 2)).toUInt32 <<< 16 |||
    (mh (i + 3)).toUInt32 <<< 24

def copy (n : Nat) (mh : Buffer) (i : Nat) : Octets n :=
  ⟨(List.range n).map fun k => mh (i + k), by simp⟩

/-! ## mh_opt_parse -/

/-- `struct mh_options`; an offset of zero is an absent option. -/
structure MhOptions where
  opts : Nat → Nat
  optsEnd : Nat → Nat

def MhOptions.zero : MhOptions := ⟨fun _ => 0, fun _ => 0⟩

def ip6MhoptMax : Nat := 0x1B

def mhOptsDupOk (dupBeyond : Nat → Bool) : Nat → Bool
  | 0 => true
  | 1 => true
  | 2 => false
  | 3 => false
  | 4 => false
  | 5 => false
  | 6 => true
  | type => dupBeyond type

def mhOptLenChk (type len : Nat) : Bool :=
  match type with
  | 2 => len ≠ 4
  | 3 => len ≠ 18
  | 4 => len ≠ 6
  | 5 => len ≠ 14
  | 6 => len ≠ 20
  | _ => false

/-- Recording an option at `i`; `none` for a repeated one that may not be. -/
def recordOpt (dupBeyond : Nat → Bool) (mhOpts : MhOptions) (type i : Nat) : Option MhOptions :=
  if type ≤ ip6MhoptMax then
    if mhOpts.opts type = 0 then some { mhOpts with opts := Function.update mhOpts.opts type i }
    else if mhOptsDupOk dupBeyond type then
      some { mhOpts with optsEnd := Function.update mhOpts.optsEnd type i }
    else none
  else some mhOpts

/-- The loop of `mh_opt_parse`, which takes at least one byte a turn.  `none`
is `-EINVAL`. -/
def optLoop (dupBeyond : Nat → Bool) (mh : Buffer) :
    Nat → Nat → Nat → Bool → MhOptions → Option MhOptions
  | _, 0, _, _, mhOpts => some mhOpts
  | 0, _ + 1, _, _, _ => none
  | fuel + 1, left, i, bauth, mhOpts =>
      if bauth then none
      else
        let type := (mh i).toNat
        let optLen := (mh (i + 1)).toNat + 2
        if type = 0 then optLoop dupBeyond mh fuel (left - 1) (i + 1) bauth mhOpts
        else if left < 2 ∨ mhOptLenChk type optLen then none
        else if type = 1 then
          optLoop dupBeyond mh fuel (left - optLen) (i + optLen) bauth mhOpts
        else
          match recordOpt dupBeyond mhOpts type i with
          | none => none
          | some mhOpts =>
              optLoop dupBeyond mh fuel (left - optLen) (i + optLen) (type = 5) mhOpts

def mhOptParse (dupBeyond : Nat → Bool) (mh : Buffer) (len offset : Nat) : Option MhOptions :=
  optLoop dupBeyond mh (len - offset) (len - offset) offset false MhOptions.zero

def mhOpt (mhOpts : MhOptions) (type : Nat) : Option Nat :=
  if mhOpts.opts type = 0 then none else some (mhOpts.opts type)

/-! ## Binding updates, acknowledgements and neighbour discovery -/

structure MobilityOptions where
  mnNai : Option Nai
  mnPrefix : Option In6Addr
  mnId : Option (Octets 8)
  timestamp : Option Ip6ts
  deriving DecidableEq

def mobilityOptions (mh : Buffer) (mhOpts : MhOptions) : MobilityOptions where
  mnNai := (mhOpt mhOpts 0x08).map fun i => copy 63 mh (i + 3)
  mnPrefix := (mhOpt mhOpts 0x16).map fun i => copy 16 mh (i + 4)
  mnId := (mhOpt mhOpts 0x19).map fun i => copy 8 mh (i + 4)
  timestamp := (mhOpt mhOpts 0x1B).map fun i => ⟨load32 mh (i + 2), load32 mh (i + 6)⟩

def iidOf (mnId : Octets 8) : In6Addr :=
  ⟨List.replicate 8 0 ++ mnId.bytes, by simp [mnId.size]⟩

def fillOptions (info : MsgInfo) (options : MobilityOptions) : MsgInfo :=
  { info with
    mnNai := options.mnNai.getD info.mnNai
    mnPrefix := options.mnPrefix.getD info.mnPrefix
    mnIid := (options.mnId.map iidOf).getD info.mnIid
    timestamp := options.timestamp.getD info.timestamp }

/-- The fixed header of an update, in host byte order, and its options. -/
structure PbuFields where
  flags : UInt16
  lifetime : UInt16
  seqno : UInt16
  options : MobilityOptions
  deriving DecidableEq

/-- `none` when the header is cut off or `mh_opt_parse` fails. -/
def decodePbu (dupBeyond : Nat → Bool) (m : Received) : Option PbuFields :=
  if m.len < 12 then none
  else (mhOptParse dupBeyond m.mh m.len 12).map fun mhOpts =>
    { flags := ntohs (load16 m.mh 8)
      lifetime := ntohs (load16 m.mh 10)
      seqno := ntohs (load16 m.mh 6)
      options := mobilityOptions m.mh mhOpts }

def fillPbu (info : MsgInfo) (pbu : PbuFields) : MsgInfo :=
  { fillOptions info pbu.options with
    pbuFlags := pbu.flags
    lifetime := { info.lifetime with tvSec := 4 * pbu.lifetime.toNat }
    seqno := pbu.seqno
    msgEvent := .hasPBU }

/-- What `mh_pbu_parse` writes before any check. -/
def pbuAddresses (info : MsgInfo) (src dst : In6Addr) (iif : Int) : MsgInfo :=
  { info with src := src, dst := dst, iif := iif, mnServMagAddr := src }

/-- The update that `mh_pbu_parse` accepts. -/
def acceptedPbu (conf : Conf) (dupBeyond : Nat → Bool) (m : Received) : Option PbuFields :=
  if m.dst = conf.lmaAddress then decodePbu dupBeyond m else none

def mhPbuParse (conf : Conf) (dupBeyond : Nat → Bool) (info : MsgInfo) (m : Received) : MsgInfo :=
  let info := pbuAddresses info m.src m.dst m.iif
  match acceptedPbu conf dupBeyond m with
  | none => info
  | some pbu => fillPbu info pbu

structure PbaFields where
  flags : UInt8
  lifetime : UInt16
  seqno : UInt16
  options : MobilityOptions
  deriving DecidableEq

/-- The flags, one byte, go through `ntohs` as well. -/
def decodePba (dupBeyond : Nat → Bool) (m : Received) : Option PbaFields :=
  if m.len < 12 then none
  else (mhOptParse dupBeyond m.mh m.len 12).map fun mhOpts =>
    { flags := (ntohs (m.mh 7).toUInt16).toUInt8
      lifetime := ntohs (load16 m.mh 10)
      seqno := ntohs (load16 m.mh 8)
      options := mobilityOptions m.mh mhOpts }

def fillPba (info : MsgInfo) (pba : PbaFields) : MsgInfo :=
  { fillOptions info pba.options with
    pbaFlags := pba.flags
    lifetime := { info.lifetime with tvSec := 4 * pba.lifetime.toNat }
    seqno := pba.seqno
    msgEvent := .hasPBA }

def mhPbaParse (dupBeyond : Nat → Bool) (info : MsgInfo) (m : Received) : MsgInfo :=
  let info := { info with src := m.src, dst := m.dst, iif := m.iif }
  match decodePba dupBeyond m with
  | none => info
  | some pba => fillPba info pba

def icmpRsParse (saddr daddr : In6Addr) (iif : Int) : MsgInfo :=
  { MsgInfo.zero with
    msgEvent := .hasRS
    src := saddr
    dst := daddr
    iif := iif
    mnIid := getNodeId saddr }

def icmpNaParse (map : List MnidHnp) (target saddr daddr : In6Addr) (iif : Int) : MsgInfo :=
  { MsgInfo.zero with
    msgEvent := .hasNA
    src := saddr
    dst := daddr
    iif := iif
    mnIid := getNodeId target
    mnPrefix := getNodePrefix target
    mnNai := HnpCache.getNodeNai map (eui64ToEui48 (getNodeId target)) }

end OaiPmip.Msgs
