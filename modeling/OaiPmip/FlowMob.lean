import OaiPmip.LmaProc

/-!
# Flow mobility at the anchor, pmip/fmpmip

The cache of flows, the scheduler that gives every flow the mark of one of its
client's paths, and the rules of the mangle chain that set the marks.  A rule
matches addresses, protocol and ports; a flow is also told apart by its traffic
class and its flow label.  `ip6tables -C` is a membership test, `-I` an
insertion at the head and `-D` the removal of the first equal rule.

The binding cache and the list of client routes are read and not changed, so a
call is given the daemon as it stands.
-/

set_option autoImplicit false

namespace OaiPmip

open OaiPmip.ChainTable OaiPmip.HashChains
open OaiPmip.HashKeys (FlowKey calcFlowHash)

inductive Transport where
  | tcp
  | udp
  deriving DecidableEq

structure FiveTuple where
  ip6Origin : In6Addr
  ip6Destination : In6Addr
  transportProtocol : Transport
  transportSourcePort : UInt16
  transportDestinationPort : UInt16
  deriving DecidableEq

def HashKeys.FlowKey.toFiveTuple (k : FlowKey) : FiveTuple where
  ip6Origin := k.ip6Source
  ip6Destination := k.ip6Destination
  transportProtocol := if k.transportProtocol = 6 then .tcp else .udp
  transportSourcePort := k.transportSourcePort
  transportDestinationPort := k.transportDestinationPort

/-- `fmpmip_flow_cache_entry`. -/
structure FlowEntry where
  bid : Int
  clientNai : Nai
  mark : UInt32
  key : FlowKey
  deriving DecidableEq

structure Rule where
  flow : FiveTuple
  mark : UInt32
  deriving DecidableEq

/-- `flowMarker_add_fwmark`: the rule is inserted when the check does not find it. -/
def flowMarkerAddFwmark (rules : List Rule) (flow : FiveTuple) (mark : UInt32) : List Rule :=
  if ⟨flow, mark⟩ ∈ rules then rules else ⟨flow, mark⟩ :: rules

def flowMarkerDeleteMark (rules : List Rule) (flow : FiveTuple) (mark : UInt32) : List Rule :=
  rules.erase ⟨flow, mark⟩

/-- `get_mag_mark`; `marks` is `conf.MagAddressEgress` with `conf.MagRoutingMark`. -/
def getMagMark (marks : List (In6Addr × UInt32)) (magAddress : In6Addr) : UInt32 :=
  ((marks.find? fun mag => mag.1 = magAddress).map Prod.snd).getD 0

/-- The loop of `get_flow_fwmark` along the MAGs of a client, for the number that
was drawn. -/
def pickMark (marks : List (In6Addr × UInt32)) (r : Nat) : UInt32 → List In6Addr → UInt32
  | mark, [] => mark
  | _, mag :: rest =>
      if r < 10 then getMagMark marks mag else pickMark marks r (getMagMark marks mag) rest

def getFlowFwmark (marks : List (In6Addr × UInt32)) (clients : List ClientRoute) (mnNai : Nai)
    (rand : Nat) : UInt32 :=
  match ClientRoutes.find clients mnNai with
  | none => 0
  | some client => pickMark marks (rand % 20) 0 client.mags

/-! ## The cache of flows -/

abbrev flowmobCacheBuckets : Nat := 128

def flowCalcHash (k : FlowKey) : Fin flowmobCacheBuckets := calcFlowHash flowmobCacheBuckets k

/-- The entries by their addresses, the hash table of these with
`flowmob_cache_count`, and the chain. -/
structure FlowMob where
  heap : Nat → FlowEntry
  top : Nat
  hash : Table flowmobCacheBuckets Nat
  count : Int
  rules : List Rule

namespace FlowMob

def init : FlowMob where
  heap := fun _ => ⟨0, Octets.zero 63, 0,
    { ip6Source := in6addrAny
      ip6Destination := in6addrAny
      transportProtocol := 0
      transportSourcePort := 0
      transportDestinationPort := 0
      trafficClass := 0
      flowLabel := 0 }⟩
  top := 0
  hash := ChainTable.empty flowmobCacheBuckets Nat
  count := 0
  rules := []

def key (s : FlowMob) (fce : Nat) : FlowKey := (s.heap fce).key

/-- The cached flows in the order of `flowmob_cache_iterate`. -/
def flows (s : FlowMob) : List Nat := toList s.hash

def flowmobCacheGet (s : FlowMob) (k : FlowKey) : Option Nat :=
  ChainTable.get flowCalcHash s.key s.hash k

/-- `flowmob_cache_alloc` and `flowmob_cache_add`; `node` is whether there is
memory for the node of the table. -/
def flowmobCacheAdd (s : FlowMob) (entry : FlowEntry) (node : Bool) : FlowMob :=
  let fce := s.top
  let s := { s with heap := Function.update s.heap fce entry, top := fce + 1 }
  let (hash, ret) := tableAdd flowCalcHash s.key s.hash fce node
  { s with hash := hash, count := if ret ≠ 0 then s.count else s.count + 1 }

def flowmobEntryDelete (s : FlowMob) (fce : Nat) : FlowMob :=
  { s with hash := erase flowCalcHash s.key s.hash (s.key fce), count := s.count - 1 }

/-- `flow_mob_hash_iterate`: `func` returns whether its result ends the walk. -/
def iterate (func : FlowMob → Nat → FlowMob × Bool) : FlowMob → List Nat → FlowMob
  | s, [] => s
  | s, fce :: rest =>
      match func s fce with
      | (s, true) => s
      | (s, false) => iterate func s rest

/-! ## The scheduler -/

/-- `pmip_cache_iterate(find_NAI, ...)`: the first binding with the address. -/
def findNai (d : Daemon) (ip6 : In6Addr) : Option Nat :=
  d.entries.find? fun bce => (d.heap bce).mnAddr = ip6

def newFlow (d : Daemon) (k : FlowKey) (mark : UInt32) : FlowEntry :=
  match findNai d k.ip6Destination with
  | none => ⟨0, Octets.zero 63, mark, k⟩
  | some bce => ⟨(d.heap bce).bid, (d.heap bce).mnNai, mark, k⟩

section Scheduler
variable (marks : List (In6Addr × UInt32)) (d : Daemon)

def newMark (k : FlowKey) (rand : Nat) : UInt32 :=
  getFlowFwmark marks d.clients (newFlow d k 0).clientNai rand

/-- `flowScheduler_schedule_flow`.  A null `flowMob` is written to; a flow that
is cached already comes back with the mark zero. -/
def flowSchedulerScheduleFlow (s : FlowMob) (k : FlowKey) (rand : Nat) (alloc node : Bool) :
    Except Crash (FlowMob × UInt32) :=
  match s.flowmobCacheGet k with
  | some _ => .ok (s, 0)
  | none =>
      let mark := newMark marks d k rand
      if mark > 0 then
        if alloc then .ok (s.flowmobCacheAdd (newFlow d k mark) node, mark)
        else .error .nullEntry
      else .ok (s, mark)

/-- Whether a mark is positive as an `int`. -/
def isPositive (mark : UInt32) : Bool := 0 < mark.toNat ∧ mark.toNat < 2 ^ 31

/-- `schedule_packet`, which holds the mark in an `int`. -/
def schedulePacket (s : FlowMob) (k : FlowKey) (rand : Nat) (alloc node : Bool) :
    Except Crash FlowMob :=
  match s.flowSchedulerScheduleFlow marks d k rand alloc node with
  | .error crash => .error crash
  | .ok (s, mark) =>
      if isPositive mark then
        .ok { s with rules := flowMarkerAddFwmark s.rules k.toFiveTuple mark }
      else .ok s

/-- `flowScheduler_change_mark`.  For the flow of another client it returns
without a value; `stray` is whether what the caller finds there is not zero. -/
def flowSchedulerChangeMark (mnNai : Nai) (rand : Nat → Nat) (stray : Nat → Bool) (s : FlowMob)
    (fce : Nat) : FlowMob × Bool :=
  let f := s.heap fce
  if f.clientNai ≠ mnNai then (s, stray fce)
  else
    let newMark := getFlowFwmark marks d.clients mnNai (rand fce)
    if newMark = 0 then
      let s := { s with rules := flowMarkerDeleteMark s.rules f.key.toFiveTuple f.mark }
      (s.flowmobEntryDelete fce, false)
    else
      let s := { s with heap := Function.update s.heap fce { f with mark := newMark } }
      let s := { s with rules := flowMarkerAddFwmark s.rules f.key.toFiveTuple newMark }
      ({ s with rules := flowMarkerDeleteMark s.rules f.key.toFiveTuple f.mark }, false)

def flowSchedulerNewPath (rand : Nat → Nat) (s : FlowMob) (fce : Nat) : FlowMob × Bool :=
  let f := s.heap fce
  let newMark := getFlowFwmark marks d.clients f.clientNai (rand fce)
  if newMark ≠ f.mark then
    let s := { s with rules := flowMarkerAddFwmark s.rules f.key.toFiveTuple newMark }
    let s := { s with rules := flowMarkerDeleteMark s.rules f.key.toFiveTuple f.mark }
    ({ s with heap := Function.update s.heap fce { f with mark := newMark } }, false)
  else (s, false)

def flowSchedulerLinkDown (mnNai : Nai) (rand : Nat → Nat) (stray : Nat → Bool) (s : FlowMob) :
    FlowMob :=
  iterate (flowSchedulerChangeMark marks d mnNai rand stray) s s.flows

def flowSchedulerLinkUp (rand : Nat → Nat) (s : FlowMob) : FlowMob :=
  iterate (flowSchedulerNewPath marks d rand) s s.flows

end Scheduler

end FlowMob

/-- A packet, or a link of a client, with the daemon as it is then, the numbers
that `rand` returns, and whether there is memory. -/
inductive FlowInput where
  | packet (d : Daemon) (k : FlowKey) (rand : Nat) (alloc node : Bool)
  | linkUp (d : Daemon) (rand : Nat → Nat)
  | linkDown (d : Daemon) (mnNai : Nai) (rand : Nat → Nat) (stray : Nat → Bool)

def FlowMob.step (marks : List (In6Addr × UInt32)) (s : FlowMob) :
    FlowInput → Except Crash FlowMob
  | .packet d k rand alloc node => s.schedulePacket marks d k rand alloc node
  | .linkUp d rand => .ok (s.flowSchedulerLinkUp marks d rand)
  | .linkDown d mnNai rand stray => .ok (s.flowSchedulerLinkDown marks d mnNai rand stray)

end OaiPmip
