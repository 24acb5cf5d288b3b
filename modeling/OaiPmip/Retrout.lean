import OaiPmip.BuMessage
import OaiPmip.BulAdd

/-!
# Return routability at the mobile node: retrout.c and mn.c

The entries for one correspondent node: `rrl_hash` holds a test entry for every
home and care-of address under test, `bul_hash` a binding update list entry for
every home address.  Every test draws a new cookie.  The timers of both lists may
go off at any time; what they do is the callback of their entry.
-/

set_option autoImplicit false

namespace OaiPmip.Retrout

open OaiPmip.Bul (BulType Callback)

inductive RrType where
  | cotEntry
  | hotEntry
  deriving DecidableEq

/-- The `bit` of the token that an entry waits for. -/
def RrType.bit : RrType → UInt8
  | .hotEntry => 0
  | .cotEntry => 1

inductive RrCallback where
  | tiResend
  | homekgtRefresh
  | careofkgtRefresh
  deriving DecidableEq

structure Rrlentry where
  own1 : In6Addr
  own2 : In6Addr
  lastsent : Timespec
  expires : Timespec
  delay : Timespec
  resendCount : Nat
  callback : Option RrCallback
  type : RrType
  wait : Bool
  index : UInt16
  cookie : Octets 8
  kgenToken : List UInt8
  homeAddrs : List In6Addr

inductive RrState where
  | ready
  | started
  | notStarted
  | hExpired
  | cExpired
  | expired
  | nonMipCn
  deriving DecidableEq

/-- An entry for a correspondent node; `rr` is its `state`, `hoNi` and `coNi`. -/
structure Bulentry extends Mh.Bulentry where
  type : BulType
  lastCoa : In6Addr
  lastsent : Timespec
  delay : Timespec
  consecutiveResends : UInt16
  coaChanged : Int
  waitAck : Bool
  dereg : Bool
  doSendBu : Bool
  state : RrState
  callback : Callback

def ip6MhBuAck : UInt16 := 0x0080

/-- The settings that are read; the parser sets `CnBuAck` to the flag or to none. -/
structure MnConf where
  cnBuAck : UInt16
  ackOnly : cnBuAck = 0 ∨ cnBuAck = ip6MhBuAck
  mnFlushAllAtHome : Bool
  mnMaxCnConsecutiveResends : Nat
  initialBindackTimeoutReReg : Timespec

/-- What memory is asked for: a message, a test entry with its place in the table, a
home address more for a care-of test. -/
inductive Alloc where
  | mhCreate
  | rreCreate
  | coAddHoa
  deriving DecidableEq

/-- The mobile node: the cookies that it draws, which requests for memory are met,
`rr_mn_calc_Kbm`, the settings and the address of the correspondent node. -/
structure Host where
  cookies : Nat → Octets 8
  alloc : Alloc → Nat → Bool
  rrMnCalcKbm : List UInt8 → Option (List UInt8) → Octets 20
  conf : MnConf
  peerAddr : In6Addr

def Host.Supplies (h : Host) (what : Alloc) : Prop := ∀ n, h.alloc what n = true

structure TestInit where
  type : RrType
  addr : In6Addr
  cookie : Octets 8
  sentAt : Timespec

structure Test where
  type : RrType
  addr : In6Addr
  cookie : Octets 8
  index : UInt16
  keygen : List UInt8

inductive Origin where
  | mnRecvHot
  | mnRecvCot
  | mnRrRefresh
  | resend
  deriving DecidableEq

structure Update where
  entry : Bulentry
  origin : Origin

structure Mn where
  rrl : In6Addr → Option Rrlentry
  bul : In6Addr → Option Bulentry
  asked : Nat
  drawn : Nat
  inits : List TestInit
  updates : List Update

def Mn.init : Mn := ⟨fun _ => none, fun _ => none, 0, 0, [], []⟩

/-- `entryTaken` is a new entry for an address that is already under test, as an
address of the other type.  There the model ends and the program does not: where
`hash_add` sees the old entry, the failed `rre_create` takes it out of the table and
leaves its timer; where it does not, the table holds both. -/
inductive Fault where
  | assertion
  | nullEntry
  | useAfterFree
  | entryTaken
  deriving DecidableEq

/-- The time, and what the home address entries say: `lifetime` is the rest of the
care-of address's lifetime and of the home registration. -/
structure Env where
  now : Timespec
  atHome : In6Addr → Bool
  lifetime : In6Addr → Timespec

def tsmin (a b : Timespec) : Timespec := if tsbefore a b then b else a

def mnTestInitDelay : Timespec := ⟨5, 0⟩

def maxBindackTimeout : Timespec := ⟨32, 0⟩

def maxTokenLifetime : Timespec := ⟨210, 0⟩

def nonMipCnLtime : Timespec := ⟨420, 0⟩

/-! ## retrout.c -/

def Mn.putRre (s : Mn) (rre : Rrlentry) : Mn :=
  { s with rrl := Function.update s.rrl rre.own1 (some rre) }

def Mn.putBule (s : Mn) (bule : Bulentry) : Mn :=
  { s with bul := Function.update s.bul bule.hoa (some bule) }

def Mn.ask (h : Host) (s : Mn) (what : Alloc) : Mn × Bool :=
  ({ s with asked := s.asked + 1 }, h.alloc what s.asked)

def rreCoAddHoa (h : Host) (s : Mn) (cote : Rrlentry) (addr : In6Addr) : Mn × Option Rrlentry :=
  if cote.homeAddrs.contains addr then (s, some cote)
  else
    let (s, met) := s.ask h .coAddHoa
    (s, if met then some { cote with homeAddrs := addr :: cote.homeAddrs } else none)

/-- One request stands for the entry, for its first home address and for the place in
the table: without one of them there is no entry. -/
def rreCreate (h : Host) (s : Mn) (type : RrType) (own1 own2 : In6Addr) :
    Except Fault (Mn × Option Rrlentry) :=
  match s.rrl own1 with
  | some _ => .error .entryTaken
  | none =>
      let (s, met) := s.ask h .rreCreate
      if met then
        let rre : Rrlentry :=
          { own1, own2, type
            lastsent := ⟨0, 0⟩
            expires := ⟨0, 0⟩
            delay := ⟨0, 0⟩
            resendCount := 0
            callback := none
            wait := false
            index := 0
            cookie := Octets.zero 8
            kgenToken := List.replicate 8 0
            homeAddrs := if type = .cotEntry then [own2] else [] }
        .ok (s.putRre rre, some rre)
      else .ok (s, none)

def rrlGet (s : Mn) (type : RrType) (ourAddr : In6Addr) : Option Rrlentry :=
  (s.rrl ourAddr).filter fun rre => rre.type = type

def rrlDelete (s : Mn) (rre : Rrlentry) : Mn :=
  { s with rrl := Function.update s.rrl rre.own1 none }

def rrlDeleteCoHoa (s : Mn) (coa hoa : In6Addr) : Mn :=
  match rrlGet s .cotEntry coa with
  | none => s
  | some rre =>
      let rre := { rre with homeAddrs := rre.homeAddrs.filter (· ≠ hoa) }
      if rre.homeAddrs = [] then rrlDelete s rre else s.putRre rre

/-- What `mn_send_hoti` and `mn_send_coti` share: a new cookie, or the one that the
entry has where `mh_create` fails and nothing is sent. -/
def mnSendTi (h : Host) (type : RrType) (s : Mn) (addr : In6Addr) (cookie : Octets 8)
    (now : Timespec) : Mn × Octets 8 :=
  let (s, met) := s.ask h .mhCreate
  if met then
    let cookie := h.cookies s.drawn
    ({ s with drawn := s.drawn + 1, inits := ⟨type, addr, cookie, now⟩ :: s.inits }, cookie)
  else (s, cookie)

def mnSendHoti (h : Host) : Mn → In6Addr → Octets 8 → Timespec → Mn × Octets 8 :=
  mnSendTi h .hotEntry

def mnSendCoti (h : Host) : Mn → In6Addr → Octets 8 → Timespec → Mn × Octets 8 :=
  mnSendTi h .cotEntry

def tiResend (h : Host) (s : Mn) (now : Timespec) (rre : Rrlentry) : Mn :=
  let (s, cookie) := match rre.type with
    | .cotEntry => mnSendCoti h s rre.own1 rre.cookie now
    | .hotEntry => mnSendHoti h s rre.own1 rre.cookie now
  s.putRre { rre with
    lastsent := now
    cookie
    delay := tsmin (tsadd rre.delay rre.delay) maxBindackTimeout
    resendCount := rre.resendCount + 1 }

def rreReset (rre : Rrlentry) (now : Timespec) : Rrlentry :=
  { rre with
    lastsent := now
    wait := true
    resendCount := 0
    delay := mnTestInitDelay
    callback := some .tiResend
    expires := now }

def startHot (h : Host) (s : Mn) (now : Timespec) (rre : Rrlentry) : Mn :=
  let (s, cookie) := mnSendHoti h s rre.own1 rre.cookie now
  s.putRre { rreReset rre now with cookie }

def startCot (h : Host) (s : Mn) (now : Timespec) (rre : Rrlentry) : Mn :=
  let (s, cookie) := mnSendCoti h s rre.own1 rre.cookie now
  s.putRre { rreReset rre now with cookie }

def mnRrHomekgtRefresh (h : Host) (s : Mn) (now : Timespec) (used : In6Addr → Bool)
    (rreHo : Rrlentry) : Mn :=
  if used rreHo.own1 then startHot h s now rreHo else rrlDelete s rreHo

def mnRrCareofkgtRefresh (h : Host) (s : Mn) (now : Timespec) (used : In6Addr → Bool)
    (rreCo : Rrlentry) : Mn :=
  if rreCo.homeAddrs.any used then startCot h s now rreCo else rrlDelete s rreCo

def mnRrTokenValid (rre : Rrlentry) (now : Timespec) : Bool :=
  !rre.wait && tsbefore rre.expires now

def mnRrCondStartHot (h : Host) (s : Mn) (now : Timespec) (bule : Bulentry) (uncond : Bool) :
    Except Fault (Mn × Nat) :=
  if bule.type ≠ .bulEntry then .error .assertion
  else
    match rrlGet s .hotEntry bule.hoa with
    | some rre =>
        let rre := { rre with own2 := bule.coa }
        let s := s.putRre rre
        if !uncond && mnRrTokenValid rre now then .ok (s, 0)
        else if rre.wait then .ok (s, 2)
        else .ok (startHot h s now rre, 1)
    | none =>
        match rreCreate h s .hotEntry bule.hoa bule.coa with
        | .error fault => .error fault
        | .ok (s, none) => .ok (s, 0)
        | .ok (s, some rre) => .ok (startHot h s now rre, 1)

/-- The end of `mn_rr_cond_start_cot`: without memory for the home address no init is
sent, as if the token were valid. -/
def addAndStartCot (h : Host) (s : Mn) (now : Timespec) (rre : Rrlentry) (hoa : In6Addr) :
    Mn × Nat :=
  match rreCoAddHoa h s rre hoa with
  | (s, none) => (s, 0)
  | (s, some rre) => (startCot h s now rre, 1)

def mnRrCondStartCot (h : Host) (s : Mn) (now : Timespec) (bule : Bulentry) (uncond : Bool) :
    Except Fault (Mn × Nat) :=
  if bule.type ≠ .bulEntry then .error .assertion
  else
    match rrlGet s .cotEntry bule.coa with
    | some rre =>
        if !uncond && mnRrTokenValid rre now then .ok (s, 0)
        else if rre.wait then .ok (s, 2)
        else .ok (addAndStartCot h s now rre bule.hoa)
    | none =>
        match rreCreate h s .cotEntry bule.coa bule.hoa with
        | .error fault => .error fault
        | .ok (s, none) => .ok (s, 0)
        | .ok (s, some rre) => .ok (addAndStartCot h s now rre bule.hoa)

def mnRrForceRefresh (h : Host) (s : Mn) (now : Timespec) (bule : Bulentry) :
    Except Fault (Mn × Bulentry) :=
  match if bule.state = .hExpired ∨ bule.state = .expired then
      mnRrCondStartHot h s now bule true else .ok (s, 0) with
  | .error fault => .error fault
  | .ok (s, _) =>
      match if bule.state = .cExpired ∨ bule.state = .expired then
          mnRrCondStartCot h s now bule true else .ok (s, 0) with
      | .error fault => .error fault
      | .ok (s, _) => .ok (s, { bule with state := .started })

/-- The end of `mn_rr_refresh`: the key of the tokens at hand.  The indices stay,
but for the one that a deregistration does without. -/
def keyAtHand (h : Host) (s : Mn) (bule : Bulentry) : Except Fault (Mn × Bulentry) :=
  match rrlGet s .hotEntry bule.hoa with
  | none => .error .nullEntry
  | some rreHo =>
      if bule.dereg then
        .ok (s, { bule with
          kbm := h.rrMnCalcKbm rreHo.kgenToken none
          state := .ready
          coNi := 0 })
      else
        match rrlGet s .cotEntry bule.coa with
        | none => .error .nullEntry
        | some rreCo => .ok (s, { bule with
            kbm := h.rrMnCalcKbm rreHo.kgenToken (some rreCo.kgenToken)
            state := .ready })

def mnRrRefresh (h : Host) (s : Mn) (now : Timespec) (bule : Bulentry) :
    Except Fault (Mn × Bulentry) :=
  let s := if bule.coaChanged > 0 then rrlDeleteCoHoa s bule.lastCoa bule.hoa else s
  match mnRrCondStartHot h s now bule false with
  | .error fault => .error fault
  | .ok (s, hot) =>
      match if bule.dereg then .ok (s, 0) else mnRrCondStartCot h s now bule false with
      | .error fault => .error fault
      | .ok (s, cot) =>
          let bule := if hot ≠ 0 ∨ cot ≠ 0 then { bule with state := .started } else bule
          if bule.state = .started ∨ bule.state = .notStarted then .ok (s, bule)
          else keyAtHand h s bule

def mnRrDeleteCo (s : Mn) (coa : In6Addr) : Mn :=
  match rrlGet s .cotEntry coa with
  | none => s
  | some rre => rrlDelete s rre

def mnRrDeleteBule (s : Mn) (e : Bulentry) : Mn :=
  let s := if e.coaChanged > 0 then rrlDeleteCoHoa s e.lastCoa e.hoa else s
  match rrlGet s .hotEntry e.hoa with
  | none => s
  | some rreHo => rrlDelete s rreHo

def mnRrErrorCheck (s : Mn) (own : In6Addr) : Option In6Addr :=
  match s.rrl own with
  | none => none
  | some rre =>
      if rre.wait then
        match rre.type with
        | .hotEntry => some rre.own1
        | .cotEntry => rre.homeAddrs.head?
      else none

/-! ## Updates, tests received and acknowledgements: mn.c, bul.c and retrout.c -/

/-- `bul_delete` of an entry for a correspondent node. -/
def bulDelete (s : Mn) (bule : Bulentry) : Mn :=
  let s := { s with bul := Function.update s.bul bule.hoa none }
  let bule := if bule.hoa = bule.coa then bule else
    { bule with lastCoa := bule.coa, coa := bule.hoa, coaChanged := 1 }
  if bule.type = .bulEntry then mnRrDeleteBule s bule else s

/-- `mn_send_bu_msg`; its bytes are `Mh.mnSendBuMsg` of the entry. -/
def mnSendBuMsg (s : Mn) (bule : Bulentry) (origin : Origin) : Mn × Bulentry :=
  ({ s with updates := ⟨bule, origin⟩ :: s.updates },
    if bule.flags &&& ip6MhBuAck ≠ 0 then { bule with waitAck := true } else bule)

def mnBuRatelimit (e : Bulentry) : Bool × Bulentry :=
  if e.coa = e.lastCoa then (e.waitAck, e)
  else (false, { e with waitAck := false, consecutiveResends := 0, coaChanged := 1 })

def mnGetRoLifetime (env : Env) (hoa : In6Addr) (dereg : Bool) : Timespec :=
  if !env.atHome hoa && !dereg then env.lifetime hoa else ⟨0, 0⟩

def mnSendCnBu (h : Host) (env : Env) (s : Mn) (bule : Bulentry) (origin : Origin) : Mn :=
  let (limited, bule) := mnBuRatelimit bule
  if limited then s.putBule bule
  else
    let bule := { bule with
      lifetime := mnGetRoLifetime env bule.hoa bule.dereg
      seq := bule.seq + 1
      lastsent := env.now }
    let (s, bule) := mnSendBuMsg s bule origin
    let bule := { bule with lastCoa := bule.coa, coaChanged := 0 }
    if bule.flags &&& ip6MhBuAck ≠ 0 then
      s.putBule { bule with
        callback := .buResend
        delay := h.conf.initialBindackTimeoutReReg }
    else if bule.dereg then bulDelete s bule
    else
      s.putBule { bule with
        callback := .mnRrCheckEntry
        delay := bule.lifetime
        doSendBu := false }

/-- The loop of `mn_recv_cot` over the home addresses that wait for the token. -/
def recvCotLoop (h : Host) (env : Env) (coAddr : In6Addr) (t : Test) :
    Mn → List In6Addr → Except Fault Mn
  | s, [] => .ok s
  | s, hoa :: rest =>
      match rrlGet s .cotEntry coAddr with
      | none => .error .useAfterFree
      | some rreCo =>
          match (s.bul hoa).filter fun bule => bule.type = .bulEntry ∧ rreCo.own1 = bule.coa with
          | none =>
              recvCotLoop h env coAddr t
                (s.putRre { rreCo with homeAddrs := rreCo.homeAddrs.erase hoa }) rest
          | some bule =>
              let bule := { bule with coNi := t.index }
              match (rrlGet s .hotEntry hoa).filter fun rreHo => bule.doSendBu ∧ ¬rreHo.wait with
              | none => recvCotLoop h env coAddr t (s.putBule bule) rest
              | some rreHo =>
                  let bule := { bule with
                    state := .ready
                    hoNi := rreHo.index
                    kbm := h.rrMnCalcKbm rreHo.kgenToken (some t.keygen) }
                  recvCotLoop h env coAddr t (mnSendCnBu h env s bule .mnRecvCot) rest

def waiting (s : Mn) (type : RrType) (t : Test) : Option Rrlentry :=
  (rrlGet s type t.addr).filter fun rre => rre.cookie = t.cookie ∧ rre.wait

def Rrlentry.tested (rre : Rrlentry) (t : Test) : Rrlentry :=
  { rre with wait := false, resendCount := 0, kgenToken := t.keygen, index := t.index }

def Rrlentry.lives (rre : Rrlentry) (callback : RrCallback) : Rrlentry :=
  { rre with
    callback := some callback
    delay := maxTokenLifetime
    expires := tsadd maxTokenLifetime rre.lastsent }

def mnRecvCot (h : Host) (env : Env) (s : Mn) (t : Test) (remoteCoa : Option In6Addr) :
    Except Fault Mn :=
  if remoteCoa.isSome then .ok s
  else
    match waiting s .cotEntry t with
    | none => .ok s
    | some rreCo =>
        match recvCotLoop h env t.addr t (s.putRre (rreCo.tested t)) rreCo.homeAddrs with
        | .error fault => .error fault
        | .ok s =>
            match rrlGet s .cotEntry t.addr with
            | none => .error .useAfterFree
            | some rreCo =>
                if rreCo.homeAddrs = [] then .ok (rrlDelete s rreCo)
                else .ok (s.putRre (rreCo.lives .careofkgtRefresh))

/-- The branches of `mn_recv_hot` once the token is in the entry. -/
def answerHot (h : Host) (env : Env) (s : Mn) (bule : Bulentry) (rreHo : Rrlentry) (t : Test) :
    Mn :=
  if bule.dereg then
    if bule.doSendBu then
      mnSendCnBu h env s { bule with
        state := .ready
        coNi := 0
        kbm := h.rrMnCalcKbm t.keygen none } .mnRecvHot
    else s.putBule bule
  else
    match (rrlGet s .cotEntry rreHo.own2).filter fun rreCo => ¬rreCo.wait ∧ bule.doSendBu with
    | none => s.putBule bule
    | some rreCo =>
        mnSendCnBu h env s { bule with
          state := .ready
          coNi := rreCo.index
          kbm := h.rrMnCalcKbm t.keygen (some rreCo.kgenToken) } .mnRecvHot

def mnRecvHot (h : Host) (env : Env) (s : Mn) (t : Test) (remoteCoa : Option In6Addr) :
    Except Fault Mn :=
  if remoteCoa.isSome then .ok s
  else
    match waiting s .hotEntry t with
    | none => .ok s
    | some rreHo =>
        match (s.bul t.addr).filter fun bule => bule.type = .bulEntry with
        | none => .ok (rrlDelete s rreHo)
        | some bule =>
            let s := answerHot h env (s.putRre (rreHo.tested t)) { bule with hoNi := t.index }
              (rreHo.tested t) t
            match rrlGet s .hotEntry t.addr with
            | none => .error .useAfterFree
            | some rreHo => .ok (s.putRre (rreHo.lives .homekgtRefresh))

def createBule (h : Host) (hoa : In6Addr) (seq : UInt16) : Bulentry where
  seq := seq
  flags := 0
  lifetime := ⟨0, 0⟩
  useAltCoa := false
  hoa := hoa
  coa := in6addrAny
  peerAddr := h.peerAddr
  hoNi := 0
  coNi := 0
  kbm := Octets.zero 20
  type := .bulEntry
  lastCoa := hoa
  lastsent := ⟨0, 0⟩
  delay := ⟨0, 0⟩
  consecutiveResends := 0
  coaChanged := 0
  waitAck := false
  dereg := false
  doSendBu := false
  state := .ready
  callback := .bulExpire

/-- The outcome of `bul_add`, for an entry that `create_bule` made. -/
structure Adding where
  seq : UInt16
  added : Bool

def mnResetRoBule (e : Bulentry) : Bulentry :=
  { e with
    callback := .bulExpire
    lifetime := maxTokenLifetime
    delay := maxTokenLifetime
    doSendBu := true }

def mnStartRo (h : Host) (env : Env) (s : Mn) (hoa coa : In6Addr) (ifCoa : Int) (add : Adding) :
    Except Fault Mn :=
  if env.atHome hoa ∨ ifCoa ≤ 0 ∨ (s.bul hoa).isSome then .ok s
  else
    let bule := mnResetRoBule { createBule h hoa add.seq with
      type := .bulEntry
      flags := h.conf.cnBuAck
      coa := coa
      coaChanged := -1
      state := .notStarted
      lastsent := env.now }
    let s := s.putBule bule
    if !add.added then .ok (bulDelete s bule)
    else
      match mnRrRefresh h s env.now bule with
      | .error fault => .error fault
      | .ok (s, bule) =>
          .ok (if bule.state = .notStarted then bulDelete s bule else s.putBule bule)

/-- `mn_send_cn_bu` where `mn_rr_refresh` has left the entry ready. -/
def sendIfReady (h : Host) (env : Env) : Mn × Bulentry → Mn
  | (s, bule) => if bule.state = .ready then mnSendCnBu h env s bule .mnRrRefresh
      else s.putBule bule

def mnRrStartHandoff (h : Host) (env : Env) (s : Mn) (bule : Bulentry) (coa : In6Addr)
    (ifCoa : Int) : Except Fault Mn :=
  if bule.type ≠ .bulEntry then .ok s
  else
    let home := env.atHome bule.hoa
    let bule := if home then { bule with dereg := true, lifetime := ⟨0, 0⟩ } else bule
    if home ∧ h.conf.mnFlushAllAtHome ∧ bule.state ≠ .ready then .ok (bulDelete s bule)
    else
      let bule := { bule with coa := coa }
      if ifCoa < 0 then .ok (bulDelete s bule)
      else
        sendIfReady h env <$> mnRrRefresh h s env.now { bule with doSendBu := true }

def mnRrCheckEntry (h : Host) (env : Env) (s : Mn) (bule : Bulentry) (used : Bool) :
    Except Fault Mn :=
  if used then
    sendIfReady h env <$>
      mnRrRefresh h s env.now (mnResetRoBule { bule with lastsent := env.now })
  else .ok (bulDelete s bule)

def mnDereg (h : Host) (env : Env) (s : Mn) (bule : Bulentry) : Except Fault Mn :=
  if bule.type = .bulEntry then
    match mnRrRefresh h s env.now { bule with dereg := true } with
    | .error fault => .error fault
    | .ok (s, bule) =>
        if bule.state ≠ .ready then .ok (s.putBule bule)
        else
          let (s, bule) := mnSendBuMsg s
            { bule with seq := bule.seq + 1, lifetime := ⟨0, 0⟩ } .mnRrRefresh
          .ok (bulDelete s bule)
  else .ok (bulDelete s bule)

def buleInvalidate (h : Host) (env : Env) (s : Mn) (e : Bulentry) (block : Bool) (add : Adding) :
    Mn :=
  if e.type ≠ .bulEntry then s
  else
    let s := bulDelete s e
    if env.atHome e.hoa then s
    else
      let e := { createBule h e.hoa add.seq with
        type := if block then .nonMipCnEntry else .unreachEntry
        flags := e.flags
        lastsent := env.now
        lifetime := nonMipCnLtime
        delay := nonMipCnLtime }
      if add.added then s.putBule e else bulDelete s e

/-- `bu_lft_check` of an entry for a correspondent node. -/
def buLftCheck (env : Env) (bule : Bulentry) : Bool × Bulentry :=
  if !tsisset bule.lifetime then (false, bule)
  else
    let lifetime := mnGetRoLifetime env bule.hoa bule.dereg
    (!env.atHome bule.hoa && !bule.dereg && !tsisset lifetime, { bule with lifetime })

/-- `bu_resend` of an entry for a correspondent node; `uncertain` is
`HOME_REG_UNCERTAIN`. -/
def buResend (h : Host) (env : Env) (s : Mn) (bule : Bulentry) (uncertain : Bool) : Mn :=
  if h.conf.mnFlushAllAtHome ∧ env.atHome bule.hoa ∧ uncertain then bulDelete s bule
  else
    let bule := { bule with
      lastsent := env.now
      delay := tsmin (tsadd bule.delay bule.delay) maxBindackTimeout
      consecutiveResends := bule.consecutiveResends + 1 }
    let (expired, bule) := buLftCheck env bule
    let bule := { bule with seq := bule.seq + 1 }
    if h.conf.mnMaxCnConsecutiveResends > 0 ∧
        bule.consecutiveResends.toNat > h.conf.mnMaxCnConsecutiveResends then bulDelete s bule
    else
      let (s, bule) := mnSendBuMsg s bule .resend
      if expired then bulDelete s bule else s.putBule bule

/-- A binding acknowledgement; `auth` is what `mh_verify_auth_data` says where it
has authorization data. -/
structure Ba where
  status : UInt8
  seqno : UInt16
  lifetime : UInt16
  auth : Option Bool

/-- `mn_chk_bauth`: `none` where the acknowledgement is to be dropped.  Without
authorization data the tokens may be renewed. -/
def mnChkBauth (h : Host) (env : Env) (s : Mn) (ba : Ba) (e : Bulentry) :
    Except Fault (Mn × Option Bulentry) :=
  match ba.auth with
  | some verified => .ok (s, if verified then some e else none)
  | none =>
      if e.seq = ba.seqno then
        let e := if ba.status = 136 then { e with state := .hExpired }
          else if ba.status = 137 then { e with state := .cExpired }
          else if ba.status = 138 then { e with state := .expired }
          else e
        match mnRrForceRefresh h s env.now e with
        | .error fault => .error fault
        | .ok (s, e) => .ok (s.putBule (mnResetRoBule e), none)
      else .ok (s, none)

/-- `set_bule_lifetime` without the home flag. -/
def setBuleLifetime (bule : Bulentry) (baLifetime : Timespec) : Bulentry :=
  { bule with
    lifetime := tsmin bule.lifetime baLifetime
    delay := ⟨max baLifetime.tvSec 0, 0⟩ }

def resendSeqno (h : Host) (env : Env) (s : Mn) (ba : Ba) (bule : Bulentry) : Mn × Bulentry :=
  let (s, bule) := mnSendBuMsg s
    { bule with
      lastsent := env.now
      seq := ba.seqno + 1
      lifetime := mnGetRoLifetime env bule.hoa false
      callback := .buResend } .resend
  (s, { bule with delay := h.conf.initialBindackTimeoutReReg })

/-- What an acknowledgement with the entry's sequence number, or status 135 and any
number, makes of it. -/
def takeBa (h : Host) (env : Env) (s : Mn) (ba : Ba) (bule : Bulentry) (add : Adding) : Mn :=
  let bule := { bule with doSendBu := false, consecutiveResends := 0 }
  if ba.status ≥ 128 ∧ ba.status ≠ 135 then buleInvalidate h env s bule true add
  else
    let (s, bule) := if ba.status = 135 then resendSeqno h env s ba bule else (s, bule)
    if !bule.waitAck then s.putBule bule
    else
      let baLifetime : Timespec := ⟨ba.lifetime.toNat * 4, 0⟩
      let bule := if ba.status = 135 then bule else { bule with waitAck := false }
      if !tsisset baLifetime then bulDelete s bule
      else s.putBule { setBuleLifetime bule baLifetime with callback := .mnRrCheckEntry }

def mnProcessCnBa (h : Host) (env : Env) (s : Mn) (ba : Ba) (bule : Bulentry) (add : Adding) :
    Except Fault Mn :=
  match mnChkBauth h env s ba bule with
  | .error fault => .error fault
  | .ok (s, none) => .ok s
  | .ok (s, some bule) =>
      if bule.seq ≠ ba.seqno ∧ ba.status ≠ 135 then .ok s
      else .ok (takeBa h env s ba bule add)

/-- A binding error: its status and the home address in it, if it has one. -/
structure BindingError where
  status : UInt8
  homeaddr : Option In6Addr

/-- `mn_recv_be` of an error that the correspondent node sent to `dst`. -/
def mnRecvBe (h : Host) (env : Env) (s : Mn) (berr : BindingError) (dst : In6Addr)
    (add : Adding) : Mn :=
  let hoa := berr.homeaddr.getD ((mnRrErrorCheck s dst).getD dst)
  match (s.bul hoa).filter fun e => e.type = .bulEntry with
  | none => s
  | some e =>
      if berr.status = 1 then bulDelete s e
      else if berr.status = 2 then
        if !e.doSendBu then s
        else if berr.homeaddr.isSome ∧ e.state ≠ .ready then s
        else if e.state ≠ .ready ∨ e.waitAck then buleInvalidate h env s e true add
        else s
      else s

inductive MnInput where
  | startRo (hoa coa : In6Addr) (ifCoa : Int) (add : Adding)
  | startHandoff (hoa coa : In6Addr) (ifCoa : Int)
  | bulTimer (hoa : In6Addr) (used uncertain : Bool)
  | rrlTimer (own : In6Addr) (used : In6Addr → Bool)
  | recvTest (t : Test) (remoteCoa : Option In6Addr)
  | recvBa (hoa : In6Addr) (ba : Ba) (add : Adding)
  | recvBe (berr : BindingError) (dst : In6Addr) (add : Adding)
  | invalidate (hoa : In6Addr) (block : Bool) (add : Adding)
  | flush (hoa : In6Addr)
  | dereg (hoa : In6Addr)
  | deleteCo (coa : In6Addr)

/-- The callback of an entry in `bul_hash`. -/
def bulTimer (h : Host) (env : Env) (s : Mn) (bule : Bulentry) (used uncertain : Bool) :
    Except Fault Mn :=
  match bule.callback with
  | .mnRrCheckEntry => mnRrCheckEntry h env s bule used
  | .buResend => .ok (buResend h env s bule uncertain)
  | .bulExpire => .ok (bulDelete s { bule with lifetime := ⟨0, 0⟩ })
  | .buRefresh => .ok s

/-- The callback of an entry in `rrl_hash`. -/
def rrlTimer (h : Host) (s : Mn) (now : Timespec) (used : In6Addr → Bool) (rre : Rrlentry) : Mn :=
  match rre.callback with
  | some .tiResend => tiResend h s now rre
  | some .homekgtRefresh => mnRrHomekgtRefresh h s now used rre
  | some .careofkgtRefresh => mnRrCareofkgtRefresh h s now used rre
  | none => s

def Mn.step (h : Host) (env : Env) (s : Mn) : MnInput → Except Fault Mn
  | .startRo hoa coa ifCoa add => mnStartRo h env s hoa coa ifCoa add
  | .startHandoff hoa coa ifCoa =>
      match s.bul hoa with
      | none => .ok s
      | some bule => mnRrStartHandoff h env s bule coa ifCoa
  | .bulTimer hoa used uncertain =>
      match s.bul hoa with
      | none => .ok s
      | some bule => bulTimer h env s bule used uncertain
  | .rrlTimer own used =>
      match s.rrl own with
      | none => .ok s
      | some rre => .ok (rrlTimer h s env.now used rre)
  | .recvTest t remoteCoa =>
      match t.type with
      | .hotEntry => mnRecvHot h env s t remoteCoa
      | .cotEntry => mnRecvCot h env s t remoteCoa
  | .recvBa hoa ba add =>
      match (s.bul hoa).filter fun bule => bule.type = .bulEntry with
      | none => .ok s
      | some bule => mnProcessCnBa h env s ba bule add
  | .recvBe berr dst add => .ok (mnRecvBe h env s berr dst add)
  | .invalidate hoa block add =>
      match s.bul hoa with
      | none => .ok s
      | some bule => .ok (buleInvalidate h env s bule block add)
  | .flush hoa =>
      match s.bul hoa with
      | none => .ok s
      | some bule => .ok (bulDelete s bule)
  | .dereg hoa =>
      match s.bul hoa with
      | none => .ok s
      | some bule => mnDereg h env s bule
  | .deleteCo coa => .ok (mnRrDeleteCo s coa)

end OaiPmip.Retrout
