import OaiPmip.Msgs

/-!
# The correspondent node: cn.c, bcache.c and keygen.c

Binding updates are authorised by the return routability procedure: the node
hands out tokens computed from its nonces, and an update carries the indices of
two nonces and an authenticator under a key made of the two tokens.  The binding
cache maps a pair of addresses to its entry.

HMAC is an opaque predicate: `authentic home careOf pair coa mh` is whether the
authenticator in `mh`, its checksum cleared, is the one under the key for these
nonces and addresses.  A nonce is the number of its draw from `RAND_bytes`.  A
cached entry always has its `_expire` queued, and a nonce with a lifetime its
`nonce_regen`; tasks that are due run in any order.
-/

set_option autoImplicit false

namespace OaiPmip.Cn

open OaiPmip.Msgs

/-- A received mobility header with its home address and our address. -/
structure Bu where
  mh : List UInt8
  src : In6Addr
  dst : In6Addr
  deriving DecidableEq

structure BcKey where
  ourAddr : In6Addr
  peerAddr : In6Addr
  deriving DecidableEq

def Bu.key (m : Bu) : BcKey := ⟨m.dst, m.src⟩

def Bu.buffer (m : Bu) : Buffer := fun i => m.mh.getD i 0

/-- What is read of an update after it is parsed; `nonInd` has the home nonce
index and the care-of nonce index. -/
structure Request where
  isHome : Bool
  seqno : UInt16
  nonInd : Option (UInt16 × UInt16)
  hasAuth : Bool
  bindCoa : In6Addr
  lifetime : Timespec
  deriving DecidableEq

/-- The `IP6_MH_BAS_*` codes of the answers. -/
inductive BasStatus where
  | accepted
  | unspecified
  | prohibit
  | insufficient
  | haNotSupported
  | seqnoBad
  | homeNiExpired
  | coaNiExpired
  | niExpired
  | regNotAllowed
  deriving DecidableEq

def mip6SeqGt (x y : UInt16) : Bool := 0 < (x - y).toNat ∧ (x - y).toNat < 2 ^ 15

def in6IsAddrRoutableUnicast (a : In6Addr) : Bool :=
  a ≠ in6addrAny ∧ a ≠ in6addrLoopback ∧ a.get 0 ≠ 0xff ∧
    ¬ (a.get 0 = 0xfe ∧ a.get 1 &&& 0xc0 = 0x80)

def tssub (a b : Timespec) : Timespec :=
  if a.tvNsec - b.tvNsec < 0 then ⟨a.tvSec - b.tvSec - 1, a.tvNsec - b.tvNsec + timeSecNsec⟩
  else ⟨a.tvSec - b.tvSec, a.tvNsec - b.tvNsec⟩

/-- `mh_bu_parse`; `bceExists` looks into the binding cache. -/
def mhBuParse (dupBeyond : Nat → Bool) (bceExists : BcKey → Bool) (m : Bu)
    (remoteCoa : Option In6Addr) : Option Request :=
  if m.mh.length < 12 then none
  else
    match mhOptParse dupBeyond m.buffer m.mh.length 12 with
    | none => none
    | some mhOpts =>
        if in6IsAddrRoutableUnicast m.src then
          let request (bindCoa : In6Addr) (lifetime : Timespec) : Request :=
            { isHome := m.buffer 8 &&& 0x40 ≠ 0
              seqno := ntohs (load16 m.buffer 6)
              nonInd := (mhOpt mhOpts 4).map fun i =>
                (ntohs (load16 m.buffer (i + 2)), ntohs (load16 m.buffer (i + 4)))
              hasAuth := (mhOpt mhOpts 5).isSome
              bindCoa := bindCoa
              lifetime := lifetime }
          let altCoa := (mhOpt mhOpts 3).map fun i => copy 16 m.buffer (i + 2)
          match altCoa.or remoteCoa with
          -- the home address stands in for deregistrations
          | none => some (request m.src ⟨0, 0⟩)
          | some bindCoa =>
              if !in6IsAddrRoutableUnicast bindCoa then none
              else if bindCoa = m.src then some (request bindCoa ⟨0, 0⟩)
              else if bceExists ⟨m.dst, bindCoa⟩ then none
              else some (request bindCoa ⟨4 * (ntohs (load16 m.buffer 10)).toNat, 0⟩)
        else none

/-- The `BCE_*` entry types of bcache.h. -/
inductive EntryType where
  | nonceBlock
  | homereg
  | cached
  | cacheDying
  | dad
  deriving DecidableEq

/-- `struct bcentry`, with the time for which its task is queued. -/
structure Bcentry where
  coa : In6Addr
  seqno : UInt16
  type : EntryType
  nonceCoa : UInt16
  nonceHoa : UInt16
  lifetime : Timespec
  expires : Timespec
  deriving DecidableEq

structure NonceHolder where
  nonceIndex : UInt16
  nonce : Nat
  validUntil : Timespec

structure State where
  nonces : Fin 16 → NonceHolder
  minNce : UInt16
  maxNce : UInt16
  drawn : Nat
  bcache : BcKey → Option Bcentry

/-- `nonces[idx & (MAX_NONCES - 1)]`. -/
def slot (idx : UInt16) : Fin 16 := Fin.ofNat 16 idx.toNat

/-- After `rr_cn_init` and `bcache_init`. -/
def State.init : State where
  nonces := fun i =>
    let index := if i = 0 then 16 else i.val
    ⟨UInt16.ofNat index, index - 1, ⟨0, 0⟩⟩
  minNce := 1
  maxNce := 16
  drawn := 16
  bcache := fun _ => none

def State.put (s : State) (k : BcKey) (e : Option Bcentry) : State :=
  { s with bcache := Function.update s.bcache k e }

def State.bceExists (s : State) (k : BcKey) : Bool := (s.bcache k).isSome

/-! ## Nonces and the binding cache, keygen.c and bcache.c -/

def maxNonceLifetime : Timespec := ⟨240, 0⟩

def maxTokenLifetime : Int := 210

/-- `nonce_regen`, for the holder in one place of the table. -/
def nonceRegen (s : State) (i : Fin 16) : State :=
  { s with
    minNce := s.minNce + 1
    maxNce := s.maxNce + 1
    nonces := Function.update s.nonces i
      { nonceIndex := (s.nonces i).nonceIndex + 16
        nonce := s.drawn
        validUntil := ⟨0, 0⟩ }
    drawn := s.drawn + 1 }

def getNonce (s : State) (idx : UInt16) : Option NonceHolder :=
  if (s.nonces (slot idx)).nonceIndex = idx then some (s.nonces (slot idx)) else none

/-- The loop of `_get_valid_nonce`.  `none` is a null nonce, at the end or in the
loop. -/
def getValidNonceFrom (now : Timespec) : State → List UInt16 → State × Option NonceHolder
  | s, [] => (s, none)
  | s, c :: rest =>
      match getNonce s c with
      | none => (s, none)
      | some n =>
          let n := if tsisset n.validUntil then n
            else { n with validUntil := tsadd now maxNonceLifetime }
          let s := { s with nonces := Function.update s.nonces (slot c) n }
          if (tssub n.validUntil now).tvSec ≥ maxTokenLifetime then (s, some n)
          else getValidNonceFrom now s rest

def getValidNonce (s : State) (now : Timespec) : State × Option NonceHolder :=
  getValidNonceFrom now s
    (if s.minNce ≤ s.maxNce then (List.range 16).map fun i => s.minNce + UInt16.ofNat i else [])

/-- `rr_cn_keygen_token`, which reads the nonce that it was given. -/
def rrCnKeygenToken (s : State) (now : Timespec) : Except Crash State :=
  match getValidNonce s now with
  | (_, none) => .error .nullEntry
  | (s, some _) => .ok s

def validateNonce (s : State) (now : Timespec) (nidx : UInt16) : Option NonceHolder :=
  match getNonce s nidx with
  | none => none
  | some n => if (tssub n.validUntil now).tvSec < 0 then none else some n

def rrCnNonceLft (s : State) (index : UInt16) : Option Timespec :=
  (getNonce s index).map NonceHolder.validUntil

/-- `rr_cn_calc_Kbm`: the nonces of which the key is made.  Without a care-of
address only the home nonce counts. -/
def rrCnCalcKbm (s : State) (now : Timespec) (homeNonceInd : UInt16)
    (coaNonceInd : Option UInt16) : Except BasStatus (Nat × Option Nat) :=
  match validateNonce s now homeNonceInd, coaNonceInd with
  | none, none => .error .homeNiExpired
  | some home, none => .ok (home.nonce, none)
  | home, some idx =>
      match home, validateNonce s now idx with
      | none, none => .error .niExpired
      | none, some _ => .error .homeNiExpired
      | some _, none => .error .coaNiExpired
      | some home, some careOf => .ok (home.nonce, some careOf.nonce)

def cnBrrBeforeExpiry : Timespec := ⟨2, 0⟩

/-- `bce_delete` without `flush`: an entry of a correspondent node whose home
nonce is still there is kept to block that nonce. -/
def bceDelete (s : State) (k : BcKey) (bce : Bcentry) : State :=
  if bce.type = .cached ∨ bce.type = .cacheDying then
    match rrCnNonceLft s bce.nonceHoa with
    | some minlft => s.put k (some { bce with type := .nonceBlock, expires := minlft })
    | none => s.put k none
  else s.put k none

def bcacheDelete (s : State) (k : BcKey) : State :=
  match s.bcache k with
  | none => s
  | some bce => bceDelete s k bce

def expire (s : State) (now : Timespec) (k : BcKey) (bce : Bcentry) : State :=
  if bce.type = .cached then
    s.put k (some { bce with type := .cacheDying, expires := tsadd now cnBrrBeforeExpiry })
  else bceDelete s k bce

/-! ## Binding updates, cn.c -/

structure CnBindingPolEntry where
  remoteHoa : In6Addr
  localAddr : In6Addr
  bindPolicy : Bool

/-- The settings of `conf` that are read, and what lies behind the table of
options that may be repeated. -/
structure CnConf where
  doRouteOptimizationCN : Bool
  cnBindingPol : List CnBindingPolEntry
  dupBeyond : Nat → Bool

def cnBindingPolGet (conf : CnConf) (k : BcKey) : Bool :=
  match conf.cnBindingPol.find? fun pol => pol.remoteHoa = k.peerAddr with
  | none => conf.doRouteOptimizationCN
  | some pol =>
      if pol.localAddr = in6addrAny ∨ pol.localAddr = k.ourAddr then pol.bindPolicy
      else conf.doRouteOptimizationCN

abbrev Authentic := Nat → Option Nat → BcKey → In6Addr → List UInt8 → Bool

def clearCksum (mh : List UInt8) : List UInt8 := (mh.set 4 0).set 5 0

def kbmNonces (s : State) (now : Timespec) (q : Request) (nonInd : UInt16 × UInt16) :
    Except BasStatus (Nat × Option Nat) :=
  rrCnCalcKbm s now nonInd.1 (if tsisset q.lifetime then some nonInd.2 else none)

/-- `cn_bu_check`; `none` for an update that is dropped in silence. -/
def cnBuCheck (authentic : Authentic) (s : State) (now : Timespec) (m : Bu) (q : Request) :
    Option BasStatus :=
  if q.isHome then
    if q.nonInd.isSome then none
    else if s.bceExists m.key then some .regNotAllowed
    else some .haNotSupported
  else
    match q.nonInd with
    | none => none
    | some nonInd =>
        match kbmNonces s now q nonInd with
        | .error status => some status
        | .ok (home, careOf) =>
            if q.hasAuth && authentic home careOf m.key q.bindCoa (clearCksum m.mh) then
              some .accepted
            else none

def maxRrBindingLifetime : Timespec := ⟨420, 0⟩

def boundEntry (now : Timespec) (q : Request) (nonInd : UInt16 × UInt16) : Bcentry :=
  let lft := if tsbefore q.lifetime maxRrBindingLifetime then maxRrBindingLifetime else q.lifetime
  { coa := q.bindCoa
    seqno := q.seqno
    type := .cached
    nonceCoa := nonInd.2
    nonceHoa := nonInd.1
    lifetime := lft
    expires := tsadd now (tssub lft cnBrrBeforeExpiry) }

/-- `cn_recv_bu` from the policy on, with the entry it holds.  `alloc` and `node`
are whether there is memory for a new entry and for its node. -/
def cnBind (conf : CnConf) (s : State) (now : Timespec) (k : BcKey) (q : Request)
    (nonInd : UInt16 × UInt16) (bce : Option Bcentry) (alloc node : Bool) : State × BasStatus :=
  if cnBindingPolGet conf k then
    if tsisset q.lifetime then
      match bce with
      | some _ => (s.put k (some (boundEntry now q nonInd)), .accepted)
      | none =>
          if alloc && node then (s.put k (some (boundEntry now q nonInd)), .accepted)
          else (s, .insufficient)
    else
      match bce with
      | some _ => (bcacheDelete s k, .accepted)
      | none => (s, .unspecified)
  else
    match bce with
    | some _ => (bcacheDelete s k, .prohibit)
    | none => (s, .prohibit)

/-- `cn_recv_bu` with the status of its answer, if it sends one. -/
def cnRecvBu (conf : CnConf) (authentic : Authentic) (s : State) (now : Timespec) (m : Bu)
    (remoteCoa : Option In6Addr) (alloc node : Bool) : State × Option BasStatus :=
  match mhBuParse conf.dupBeyond s.bceExists m remoteCoa with
  | none => (s, none)
  | some q =>
      match cnBuCheck authentic s now m q with
      | none => (s, none)
      | some .accepted =>
          -- a request that was let through has both indices
          let nonInd := q.nonInd.getD (0, 0)
          let answer := fun (result : State × BasStatus) => (result.1, some result.2)
          match s.bcache m.key with
          | none => answer (cnBind conf s now m.key q nonInd none alloc node)
          | some bce =>
              if !mip6SeqGt q.seqno bce.seqno && bce.type ≠ .nonceBlock then (s, some .seqnoBad)
              else if !mip6SeqGt q.seqno bce.seqno && bce.nonceHoa = nonInd.1 then
                (s, some .niExpired)
              else if bce.type = .nonceBlock then
                if tsisset q.lifetime then
                  answer (cnBind conf (bcacheDelete s m.key) now m.key q nonInd none alloc node)
                else (s, some .unspecified)
              else answer (cnBind conf s now m.key q nonInd (some bce) alloc node)
      | some status => (s, some status)

/-- An update that was answered as accepted, and the nonces of its key. -/
structure Accepted where
  bu : Bu
  request : Request
  home : Nat
  careOf : Option Nat

/-- A node, the time of its last event and what it has accepted. -/
structure Node where
  cn : State
  clock : Timespec
  accepted : List Accepted

def Node.init : Node := ⟨State.init, ⟨1, 0⟩, []⟩

inductive CnInput where
  | update (now : Timespec) (m : Bu) (remoteCoa : Option In6Addr) (alloc node : Bool)
  | expire (now : Timespec) (k : BcKey)
  | testInit (now : Timespec)
  | regen (now : Timespec) (i : Fin 16)

def CnInput.now : CnInput → Timespec
  | .update now .. => now
  | .expire now _ => now
  | .testInit now => now
  | .regen now _ => now

def acceptance (conf : CnConf) (s : State) (now : Timespec) (m : Bu) (remoteCoa : Option In6Addr) :
    Option Accepted :=
  match mhBuParse conf.dupBeyond s.bceExists m remoteCoa with
  | none => none
  | some q =>
      match kbmNonces s now q (q.nonInd.getD (0, 0)) with
      | .error _ => none
      | .ok (home, careOf) => some ⟨m, q, home, careOf⟩

def Node.step (conf : CnConf) (authentic : Authentic) (w : Node) :
    CnInput → Except Crash Node
  | .update now m remoteCoa alloc node =>
      let (s, status) := cnRecvBu conf authentic w.cn now m remoteCoa alloc node
      let accepted :=
        if status = some .accepted then (acceptance conf w.cn now m remoteCoa).toList else []
      .ok ⟨s, now, accepted ++ w.accepted⟩
  | .expire now k =>
      match w.cn.bcache k with
      | none => .ok { w with clock := now }
      | some bce =>
          if tsbefore bce.expires now then .ok { w with clock := now }
          else .ok { w with cn := Cn.expire w.cn now k bce, clock := now }
  | .testInit now =>
      match rrCnKeygenToken w.cn now with
      | .error crash => .error crash
      | .ok s => .ok { w with cn := s, clock := now }
  | .regen now i =>
      let n := w.cn.nonces i
      if tsisset n.validUntil ∧ tsbefore n.validUntil now = false then
        .ok { w with cn := nonceRegen w.cn i, clock := now }
      else .ok { w with clock := now }

end OaiPmip.Cn
