import OaiPmip.HaLifetimes
import OaiPmip.Lib.Runs
import OaiPmip.Lib.Wire
import OaiPmip.NonceRing
import OaiPmip.PrefixLists

/-!
# Prefixes of an interface, mpdisc_ha.c

A home agent keeps the prefixes of its routers in a list and their number beside it.
Prefixes are added and refreshed from router advertisements, expire in two steps, and are
all dropped at the end; `mpd_get_mpa_prefixes` fills a buffer for that many options.
-/

set_option autoImplicit false

namespace OaiPmip.MpdPrefixes

open OaiPmip.Cn OaiPmip.Ha OaiPmip.HaLifetimes OaiPmip.Runs
open OaiPmip.PrefixBits (sizeT ofBytes get_ofBytes)
open OaiPmip.PrefixLists (sameBits_all)
open OaiPmip.NonceRing (nanos Clock)
open OaiPmip.Wire (int32 int32_small int32_lt int32_add int32_mul)

/-- The fields of `struct nd_opt_prefix_info` that are looked at; longer prefixes are dropped
before they are handled. -/
structure Pinfo where
  prefixLen : UInt8
  flagsReserved : UInt8
  validTime : UInt32
  preferredTime : UInt32
  pfx : In6Addr
  bounded : prefixLen.toNat ≤ 128
  deriving DecidableEq

structure PrefixEntry where
  timestamp : Timespec
  pinfo : Pinfo
  deriving DecidableEq

structure MpdInterface where
  prefixList : List PrefixEntry
  prefixCount : Int
  deriving DecidableEq

/-- `sizeof(struct nd_opt_prefix_info)`. -/
def sizeofPinfo : Nat := 32

/-- `ND_OPT_PI_FLAG_ONLINK|ND_OPT_PI_FLAG_AUTO`. -/
def onlinkAuto : UInt8 := 0xc0

/-- The loop of `prefix_list_get` with the place of what it found. -/
def pinfoListGetFrom (addr : In6Addr) (plen : Nat) :
    Nat → Option (Nat × PrefixEntry) → List PrefixEntry → Option (Nat × PrefixEntry)
  | _, p1, [] => p1
  | i, p1, p2 :: rest =>
      if ipv6PfxCmp p2.pinfo.pfx addr p2.pinfo.prefixLen.toNat then
        pinfoListGetFrom addr plen (i + 1) p1 rest
      else if plen > 0 then
        if p2.pinfo.prefixLen.toNat = plen then some (i, p2)
        else pinfoListGetFrom addr plen (i + 1) p1 rest
      else if p1.all fun p1 => p1.2.pinfo.prefixLen < p2.pinfo.prefixLen then
        pinfoListGetFrom addr plen (i + 1) (some (i, p2)) rest
      else pinfoListGetFrom addr plen (i + 1) p1 rest

def pinfoListGet (pl : List PrefixEntry) (addr : In6Addr) (plen : Nat) :
    Option (Nat × PrefixEntry) :=
  pinfoListGetFrom addr plen 0 none pl

/-- The time since an entry was stamped, `tmp.tv_sec` as an `unsigned long`. -/
def elapsed (now : Timespec) (e : PrefixEntry) : UInt64 :=
  UInt64.ofInt (tssub now e.timestamp).tvSec

/-- `cv` and `cp`. -/
def lftChanged (lft old : UInt32) (diff : UInt64) : Bool :=
  (!prefixLftInfinite lft.toUInt64 || !prefixLftInfinite old.toUInt64) &&
    lft.toUInt64 + diff ≠ old.toUInt64

/-- `mpd_handle_pinfo`: the interface, the result, and the entry that the mobile nodes are
told about. -/
def mpdHandlePinfo (iface : MpdInterface) (p : Pinfo) (now : Timespec) (mallocOk : Bool) :
    MpdInterface × Int × Option PrefixEntry :=
  match pinfoListGet iface.prefixList p.pfx p.prefixLen.toNat with
  | some (i, e) =>
      let diff := elapsed now e
      let expired := e.pinfo.validTime = 0 ∧ p.validTime = 0
      let cf := (p.flagsReserved ^^^ e.pinfo.flagsReserved) &&& onlinkAuto
      let cv := lftChanged p.validTime e.pinfo.validTime diff
      let cp := lftChanged p.preferredTime e.pinfo.preferredTime diff
      if cf ≠ 0 || cv || cp then
        ({ iface with prefixList := iface.prefixList.set i ⟨now, p⟩ }, 0,
          if expired then none else some ⟨now, p⟩)
      else (iface, 0, none)
  | none =>
      if mallocOk then
        ({ prefixList := ⟨now, p⟩ :: iface.prefixList
           prefixCount := int32 (iface.prefixCount + 1) }, 0, some ⟨now, p⟩)
      else (iface, -1, none)

def tsinc (tv : Timespec) (sec nsec : Int) : Timespec := tsadd tv ⟨sec, nsec⟩

/-- What becomes of one entry; `none` is its removal. -/
def expireEntry (maxMobPfxAdvInterval : UInt32) (now : Timespec) (e : PrefixEntry) :
    Option PrefixEntry :=
  let diff := elapsed now e
  if e.pinfo.validTime = 0 then
    if diff > (2 * maxMobPfxAdvInterval).toUInt64 then none else some e
  else if !prefixLftInfinite e.pinfo.validTime.toUInt64 && diff ≥ e.pinfo.validTime.toUInt64 then
    some
      { timestamp := tsinc e.timestamp e.pinfo.validTime.toNat 0
        pinfo := { e.pinfo with validTime := 0, preferredTime := 0 } }
  else some e

def delExpiredLoop (maxMobPfxAdvInterval : UInt32) (now : Timespec) :
    List PrefixEntry → Int → List PrefixEntry × Int
  | [], count => ([], count)
  | e :: rest, count =>
      match expireEntry maxMobPfxAdvInterval now e with
      | none => delExpiredLoop maxMobPfxAdvInterval now rest (int32 (count - 1))
      | some e =>
          let (kept, count) := delExpiredLoop maxMobPfxAdvInterval now rest count
          (e :: kept, count)

def mpdDelExpiredPinfos (maxMobPfxAdvInterval : UInt32) (i : MpdInterface) (now : Timespec) :
    MpdInterface :=
  let (kept, count) := delExpiredLoop maxMobPfxAdvInterval now i.prefixList i.prefixCount
  { prefixList := kept, prefixCount := count }

def mdpDelPinfo (i : MpdInterface) : MpdInterface where
  prefixList := []
  prefixCount := i.prefixList.foldl (fun count _ => int32 (count - 1)) i.prefixCount

inductive Fault where
  | overrun
  deriving DecidableEq

/-- `buf_size`, an `int`. -/
def bufSize (iface : MpdInterface) : Int := int32 (iface.prefixCount * sizeofPinfo)

/-- An option with the lifetimes that are left, here before `htonl`. -/
def mpaOption (now : Timespec) (e : PrefixEntry) : Pinfo :=
  { e.pinfo with
    validTime := (mpdCurrLft now e.timestamp e.pinfo.validTime.toUInt64).toUInt32
    preferredTime := (mpdCurrLft now e.timestamp e.pinfo.preferredTime.toUInt64).toUInt32 }

/-- The loop over the list from option `n` on: the options and how many have expired. -/
def fillLoop (now : Timespec) (size : Nat) :
    Nat → List PrefixEntry → Except Fault (List Pinfo × Int)
  | _, [] => .ok ([], 0)
  | n, e :: rest =>
      if (n + 1) * sizeofPinfo ≤ size then do
        let (opts, expired) ← fillLoop now size (n + 1) rest
        let opt := mpaOption now e
        return (opt :: opts, if opt.validTime = 0 then expired + 1 else expired)
      else .error .overrun

/-- `malloc`, which has no room for more than `PTRDIFF_MAX` bytes. -/
def malloc (ok : Bool) (size : Nat) : Bool := ok && size < 2 ^ 63

/-- `mpd_get_mpa_prefixes`: `expired`, and the options with `iov_len`. -/
def mpdGetMpaPrefixes (iface : MpdInterface) (now : Timespec) (mallocOk : Bool) :
    Except Fault (Int × Option (List Pinfo × Int)) :=
  let size := sizeT (bufSize iface)
  if malloc mallocOk size then do
    let (opts, expired) ← fillLoop now size 0 iface.prefixList
    return (expired, some (opts, bufSize iface))
  else return (-1, none)

inductive MpdCall where
  | handlePinfo (p : Pinfo) (mallocOk : Bool)
  | delExpiredPinfos
  | delPinfo

structure MpdState where
  iface : MpdInterface
  clock : Timespec

def apply (maxMobPfxAdvInterval : UInt32) (i : MpdInterface) (now : Timespec) :
    MpdCall → MpdInterface
  | .handlePinfo p mallocOk => (mpdHandlePinfo i p now mallocOk).1
  | .delExpiredPinfos => mpdDelExpiredPinfos maxMobPfxAdvInterval i now
  | .delPinfo => mdpDelPinfo i

def step (maxMobPfxAdvInterval : UInt32) (s : MpdState) (input : Timespec × MpdCall) :
    Except Fault MpdState :=
  .ok { iface := apply maxMobPfxAdvInterval s.iface input.1 input.2, clock := input.1 }

/-- A `time_t` of 64 bits, after the epoch. -/
structure Reading (t : Timespec) : Prop where
  clock : Clock t
  bound : t.tvSec < 2 ^ 63

instance (t : Timespec) : Decidable (Reading t) :=
  decidable_of_iff ((0 < t.tvSec ∧ 0 ≤ t.tvNsec ∧ t.tvNsec < 1000000000) ∧ t.tvSec < 2 ^ 63)
    ⟨fun h => ⟨⟨h.1.1, h.1.2.1, h.1.2.2⟩, h.2⟩, fun h => ⟨⟨h.1.1, h.1.2, h.1.3⟩, h.2⟩⟩

def Forward (s : MpdState) (input : Timespec × MpdCall) : Prop :=
  Reading input.1 ∧ nanos s.clock ≤ nanos input.1

instance (s : MpdState) (input : Timespec × MpdCall) : Decidable (Forward s input) :=
  inferInstanceAs (Decidable (_ ∧ _))

def start (clock : Timespec) : MpdState := ⟨⟨[], 0⟩, clock⟩

/-! ## Looking up -/

def PrefixEntry.haPrefix (e : PrefixEntry) : HaPrefix where
  plePlen := e.pinfo.prefixLen
  plePrefix := e.pinfo.pfx
  timestamp := e.timestamp
  pleValidTime := e.pinfo.validTime
  plePrefdTime := e.pinfo.preferredTime

@[simp] theorem haPrefix_plePlen (e : PrefixEntry) : e.haPrefix.plePlen = e.pinfo.prefixLen := rfl

@[simp] theorem haPrefix_plePrefix (e : PrefixEntry) : e.haPrefix.plePrefix = e.pinfo.pfx := rfl

/-- Up to its place it is the entry that `prefix_list_get` finds. -/
theorem pinfoListGetFrom_entry (addr : In6Addr) (plen i : Nat) (p1 : Option (Nat × PrefixEntry))
    (pl : List PrefixEntry) :
    (pinfoListGetFrom addr plen i p1 pl).map (fun found => found.2.haPrefix) =
      haPrefixListGetFrom addr plen (p1.map fun found => found.2.haPrefix)
        (pl.map PrefixEntry.haPrefix) := by
  induction pl generalizing i p1 with
  | nil => rfl
  | cons p2 rest ih =>
      have longer : ((p1.map fun found => found.2.haPrefix).all fun p1 =>
          p1.plePlen < p2.haPrefix.plePlen) =
          p1.all fun p1 => p1.2.pinfo.prefixLen < p2.pinfo.prefixLen := by
        cases p1 <;> rfl
      rw [List.map_cons, pinfoListGetFrom, haPrefixListGetFrom, longer, haPrefix_plePlen,
        haPrefix_plePrefix]
      by_cases differs : ipv6PfxCmp p2.pinfo.pfx addr p2.pinfo.prefixLen.toNat = true
      · rw [if_pos differs, if_pos differs]
        exact ih (i + 1) p1
      · rw [if_neg differs, if_neg differs]
        by_cases long : plen > 0
        · rw [if_pos long, if_pos long]
          by_cases isLength : p2.pinfo.prefixLen.toNat = plen
          · rw [if_pos isLength, if_pos isLength]
            rfl
          · rw [if_neg isLength, if_neg isLength]
            exact ih (i + 1) p1
        · rw [if_neg long, if_neg long]
          by_cases isLonger : (p1.all fun p1 => p1.2.pinfo.prefixLen < p2.pinfo.prefixLen) = true
          · rw [if_pos isLonger, if_pos isLonger]
            exact ih (i + 1) (some (i, p2))
          · rw [if_neg isLonger, if_neg isLonger]
            exact ih (i + 1) p1

theorem pinfoListGetFrom_place {addr : In6Addr} {plen i : Nat}
    {p1 found : Option (Nat × PrefixEntry)} {front rest : List PrefixEntry}
    (isFront : front.length = i)
    (before : ∀ j e, p1 = some (j, e) → (front ++ rest)[j]? = some e)
    (got : pinfoListGetFrom addr plen i p1 rest = found) :
    ∀ j e, found = some (j, e) → (front ++ rest)[j]? = some e := by
  induction rest generalizing i p1 front with
  | nil =>
      cases got
      exact before
  | cons p2 rest ih =>
      have next : (front ++ [p2]).length = i + 1 := by
        rw [List.length_append, isFront, List.length_singleton]
      have here : ∀ j e, (some (i, p2) : Option (Nat × PrefixEntry)) = some (j, e) →
          (front ++ p2 :: rest)[j]? = some e := by
        intro j e same
        cases same
        rw [List.getElem?_append_right (le_of_eq isFront), isFront, Nat.sub_self]
        rfl
      rw [← List.singleton_append, ← List.append_assoc] at before here ⊢
      rw [pinfoListGetFrom] at got
      split at got
      · exact ih next before got
      · split at got
        · split at got
          · cases got
            exact here
          · exact ih next before got
        · split at got
          · exact ih next here got
          · exact ih next before got

theorem pinfoListGet_found {pl : List PrefixEntry} {addr : In6Addr} {plen i : Nat}
    {e : PrefixEntry} (got : pinfoListGet pl addr plen = some (i, e)) :
    pl[i]? = some e ∧
      haPrefixListGet (pl.map PrefixEntry.haPrefix) addr plen = some e.haPrefix := by
  constructor
  · have start : ∀ j e, (none : Option (Nat × PrefixEntry)) = some (j, e) →
        ([] ++ pl)[j]? = some e := by
      intro j e impossible
      cases impossible
    exact pinfoListGetFrom_place List.length_nil start got i e rfl
  · have entry := pinfoListGetFrom_entry addr plen 0 none pl
    have looked : pinfoListGetFrom addr plen 0 none pl = some (i, e) := got
    rw [looked] at entry
    exact entry.symm

theorem delExpiredLoop_spec (maxAdv : UInt32) (now : Timespec) (list : List PrefixEntry) (n : Int) :
    delExpiredLoop maxAdv now list (int32 (n + list.length)) =
      (list.filterMap (expireEntry maxAdv now),
        int32 (n + (list.filterMap (expireEntry maxAdv now)).length)) := by
  induction list generalizing n with
  | nil => rfl
  | cons e rest ih =>
      rw [delExpiredLoop]
      cases found : expireEntry maxAdv now e with
      | none =>
          have lowered : int32 (int32 (n + (e :: rest).length) - 1) = int32 (n + rest.length) := by
            rw [sub_eq_add_neg, int32_add, List.length_cons]
            congr 1
            omega
          simp only [lowered, ih, List.filterMap_cons_none found]
      | some kept =>
          have moved : n + ((e :: rest).length : Int) = n + 1 + rest.length := by
            rw [List.length_cons]
            omega
          rw [moved, ih, List.filterMap_cons_some found, List.length_cons]
          have total : n + 1 + ((rest.filterMap (expireEntry maxAdv now)).length : Int) =
              n + ((rest.filterMap (expireEntry maxAdv now)).length + 1 : Nat) := by
            omega
          rw [total]

theorem mdpDelPinfo_count (list : List PrefixEntry) (n : Int) :
    list.foldl (fun count _ => int32 (count - 1)) (int32 (n + list.length)) = int32 n := by
  induction list with
  | nil => rw [List.foldl_nil, List.length_nil, Int.natCast_zero, add_zero]
  | cons e rest ih =>
      rw [List.foldl_cons, sub_eq_add_neg, int32_add, ← ih, List.length_cons]
      congr 2
      omega

theorem tssub_reading {now stamp : Timespec} (reading : Reading now) (clock : Clock stamp)
    (before : nanos stamp ≤ nanos now) :
    0 ≤ (tssub now stamp).tvSec ∧ (tssub now stamp).tvSec < 2 ^ 63 ∧
      0 ≤ (tssub now stamp).tvNsec ∧ (tssub now stamp).tvNsec < 1000000000 ∧
      nanos now - nanos stamp = nanos (tssub now stamp) := by
  obtain ⟨⟨-, low, high⟩, bound⟩ := reading
  obtain ⟨epoch, low', high'⟩ := clock
  simp only [nanos] at before ⊢
  by_cases borrow : now.tvNsec - stamp.tvNsec < 0
  · simp only [tssub, if_pos borrow, timeSecNsec]
    omega
  · simp only [tssub, if_neg borrow]
    omega

theorem elapsed_toNat {now : Timespec} {e : PrefixEntry} (reading : Reading now)
    (clock : Clock e.timestamp) (before : nanos e.timestamp ≤ nanos now) :
    (elapsed now e).toNat = (tssub now e.timestamp).tvSec.toNat := by
  obtain ⟨low, high, -⟩ := tssub_reading reading clock before
  rw [elapsed, UInt64.ofInt, UInt64.toNat_ofNat']
  omega

def Stamped (clock : Timespec) (e : PrefixEntry) : Prop :=
  Clock e.timestamp ∧ nanos e.timestamp ≤ nanos clock

theorem stamped_expired {maxAdv : UInt32} {now : Timespec} {e kept : PrefixEntry}
    (reading : Reading now) (stamped : Stamped now e)
    (found : expireEntry maxAdv now e = some kept) : Stamped now kept := by
  obtain ⟨clock, before⟩ := stamped
  simp only [expireEntry] at found
  split at found
  · split at found
    · cases found
    · cases found
      exact ⟨clock, before⟩
  · split at found
    · rename_i past
      cases found
      simp only [Bool.and_eq_true, decide_eq_true_eq, ge_iff_le, UInt64.le_iff_toNat_le,
        UInt32.toNat_toUInt64] at past
      have seconds := past.2
      rw [elapsed_toNat reading clock before] at seconds
      obtain ⟨low, -, nsec, -, difference⟩ := tssub_reading reading clock before
      obtain ⟨epoch, low', high'⟩ := clock
      have noCarry : ¬e.timestamp.tvNsec + 0 ≥ timeSecNsec := by
        simp only [timeSecNsec]
        omega
      simp only [Stamped, tsinc, tsadd, if_neg noCarry]
      simp only [nanos] at difference before ⊢
      refine ⟨⟨?_, ?_, ?_⟩, ?_⟩
      · dsimp only
        omega
      · dsimp only
        omega
      · dsimp only
        omega
      · omega
    · cases found
      exact ⟨clock, before⟩

theorem Stamped.later {clock now : Timespec} {e : PrefixEntry} (stamped : Stamped clock e)
    (forward : nanos clock ≤ nanos now) : Stamped now e :=
  ⟨stamped.1, stamped.2.trans forward⟩

/-- The counter is the length as an `int`, and no entry is from the future. -/
structure Ok (s : MpdState) : Prop where
  count : s.iface.prefixCount = int32 s.iface.prefixList.length
  stamped : ∀ e ∈ s.iface.prefixList, Stamped s.clock e

theorem ok_start (clock : Timespec) : Ok (start clock) :=
  ⟨(int32_small (le_refl 0) (by decide)).symm, fun e member => by cases member⟩

theorem Ok.handlePinfo {i : MpdInterface} {clock now : Timespec} (ok : Ok ⟨i, clock⟩)
    (reading : Reading now) (forward : nanos clock ≤ nanos now) (p : Pinfo) (mallocOk : Bool) :
    Ok ⟨(mpdHandlePinfo i p now mallocOk).1, now⟩ := by
  have old : ∀ e ∈ i.prefixList, Stamped now e := by
    intro e member
    exact (ok.stamped e member).later forward
  have new : Stamped now ⟨now, p⟩ := ⟨reading.clock, le_refl _⟩
  rw [mpdHandlePinfo]
  cases pinfoListGet i.prefixList p.pfx p.prefixLen.toNat with
  | some found =>
      simp only
      split
      · refine ⟨?_, ?_⟩
        · simp only [List.length_set]
          exact ok.count
        · intro e member
          rcases List.mem_or_eq_of_mem_set member with before | rfl
          · exact old e before
          · exact new
      · exact ⟨ok.count, old⟩
  | none =>
      simp only
      split
      · refine ⟨?_, ?_⟩
        · simp only [List.length_cons, Int.natCast_succ]
          rw [ok.count, int32_add]
        · intro e member
          rcases List.mem_cons.mp member with rfl | before
          · exact new
          · exact old e before
      · exact ⟨ok.count, old⟩

theorem Ok.delExpired {i : MpdInterface} {clock now : Timespec} (ok : Ok ⟨i, clock⟩)
    (reading : Reading now) (forward : nanos clock ≤ nanos now) (maxAdv : UInt32) :
    Ok ⟨mpdDelExpiredPinfos maxAdv i now, now⟩ := by
  have loop := delExpiredLoop_spec maxAdv now i.prefixList 0
  rw [zero_add, ← show i.prefixCount = int32 i.prefixList.length from ok.count] at loop
  simp only [mpdDelExpiredPinfos, loop]
  refine ⟨?_, ?_⟩
  · simp only [zero_add]
  · intro e member
    obtain ⟨before, inList, found⟩ := List.mem_filterMap.mp member
    exact stamped_expired reading ((ok.stamped before inList).later forward) found

theorem Ok.delPinfo {i : MpdInterface} {clock : Timespec} (ok : Ok ⟨i, clock⟩) (now : Timespec) :
    Ok ⟨mdpDelPinfo i, now⟩ := by
  have lowered := mdpDelPinfo_count i.prefixList 0
  rw [zero_add, ← show i.prefixCount = int32 i.prefixList.length from ok.count] at lowered
  exact ⟨lowered, fun e member => by cases member⟩

theorem Ok.step {maxAdv : UInt32} {s next : MpdState} {input : Timespec × MpdCall} (ok : Ok s)
    (forward : Forward s input) (taken : step maxAdv s input = .ok next) : Ok next := by
  obtain ⟨now, call⟩ := input
  obtain ⟨reading, later⟩ := forward
  cases taken
  cases call with
  | handlePinfo p mallocOk => exact ok.handlePinfo reading later p mallocOk
  | delExpiredPinfos => exact ok.delExpired reading later maxAdv
  | delPinfo => exact ok.delPinfo now

theorem ok_run {maxAdv : UInt32} {clock : Timespec} {history : List (Timespec × MpdCall)}
    {final : MpdState} (forward : Meets (step maxAdv) Forward (start clock) history)
    (ran : run (step maxAdv) (start clock) history = .ok final) : Ok final :=
  run_invariant (fun _ _ _ ok forward taken => ok.step forward taken) (ok_start clock) forward ran

def secondsUp (now stamp : Timespec) : Int := (nanos now - nanos stamp + 999999999) / 1000000000

def remaining (now stamp : Timespec) (stored : UInt32) : Int :=
  if stored = 0xffffffff then stored.toNat else max 0 (stored.toNat - secondsUp now stamp)

theorem mpdCurrLft_remaining {now stamp : Timespec} (reading : Reading now) (clock : Clock stamp)
    (before : nanos stamp ≤ nanos now) (stored : UInt32) :
    ((mpdCurrLft now stamp stored.toUInt64).toUInt32.toNat : Int) = remaining now stamp stored := by
  obtain ⟨low, high, nsec, nsecHigh, difference⟩ := tssub_reading reading clock before
  have isWord := stored.toNat_lt
  set tmp := tssub now stamp with isTmp
  set diff : UInt64 := if tmp.tvNsec > 0 then UInt64.ofInt tmp.tvSec + 1 else UInt64.ofInt tmp.tvSec
    with isDiff
  have whole : (UInt64.ofInt tmp.tvSec).toNat = tmp.tvSec.toNat := by
    rw [UInt64.ofInt, UInt64.toNat_ofNat']
    omega
  have roundedUp : (diff.toNat : Int) = secondsUp now stamp := by
    rw [secondsUp, difference, nanos, isDiff]
    split
    · rw [UInt64.toNat_add, whole, UInt64.toNat_one]
      omega
    · rw [whole]
      omega
  rw [remaining, mpdCurrLft, prefixLftInfinite, UInt32.toUInt32_toUInt64, ← roundedUp]
  by_cases infinite : stored = 0xffffffff
  · rw [if_pos (decide_eq_true infinite), if_pos infinite, UInt32.toUInt32_toUInt64]
  · rw [if_neg (by simpa using infinite), if_neg infinite]
    change ((if stored.toUInt64 > diff then stored.toUInt64 - diff else 0).toUInt32.toNat : Int) = _
    by_cases left : stored.toUInt64 > diff
    · have lower : diff.toNat < stored.toNat := UInt64.lt_iff_toNat_lt.mp left
      rw [if_pos left, UInt64.toNat_toUInt32, UInt64.toNat_sub_of_le _ _ (UInt64.le_of_lt left),
        UInt32.toNat_toUInt64]
      omega
    · have past : ¬diff.toNat < stored.toNat := fun lower => left (UInt64.lt_iff_toNat_lt.mpr lower)
      rw [if_neg left]
      change (0 : Int) = _
      omega

/-! ## The buffer -/

structure FilledFrom (now : Timespec) (e : PrefixEntry) (opt : Pinfo) : Prop where
  pfx : opt.pfx = e.pinfo.pfx
  prefixLen : opt.prefixLen = e.pinfo.prefixLen
  flags : opt.flagsReserved = e.pinfo.flagsReserved
  valid : (opt.validTime.toNat : Int) = remaining now e.timestamp e.pinfo.validTime
  preferred : (opt.preferredTime.toNat : Int) = remaining now e.timestamp e.pinfo.preferredTime

theorem filledFrom_mpaOption {now : Timespec} {e : PrefixEntry} (reading : Reading now)
    (stamped : Stamped now e) : FilledFrom now e (mpaOption now e) :=
  ⟨rfl, rfl, rfl, mpdCurrLft_remaining reading stamped.1 stamped.2 _,
    mpdCurrLft_remaining reading stamped.1 stamped.2 _⟩

theorem fillLoop_ok {now : Timespec} (reading : Reading now) {size : Nat} (n : Nat)
    {list : List PrefixEntry} (room : (n + list.length) * sizeofPinfo ≤ size)
    (stamped : ∀ e ∈ list, Stamped now e) :
    ∃ opts expired, fillLoop now size n list = .ok (opts, expired) ∧
      List.Forall₂ (FilledFrom now) list opts := by
  induction list generalizing n with
  | nil => exact ⟨[], 0, rfl, .nil⟩
  | cons e rest ih =>
      rw [List.length_cons] at room
      have first : (n + 1) * sizeofPinfo ≤ size := by
        simp only [sizeofPinfo] at room ⊢
        omega
      obtain ⟨opts, expired, filled, all⟩ := ih (n + 1)
        (by rw [show n + 1 + rest.length = n + (rest.length + 1) by omega]; exact room)
        (fun e member => stamped e (List.mem_cons_of_mem _ member))
      refine ⟨mpaOption now e :: opts,
        if (mpaOption now e).validTime = 0 then expired + 1 else expired, ?_,
        .cons (filledFrom_mpaOption reading (stamped e List.mem_cons_self)) all⟩
      rw [fillLoop, if_pos first, filled]
      rfl

/-- The counter is right, the buffer has room for the list and not for more, and it is filled
with the options of the list if there is memory. -/
structure Advertised (iface : MpdInterface) (now : Timespec) : Prop where
  count : iface.prefixCount = iface.prefixList.length
  room : bufSize iface = sizeofPinfo * iface.prefixList.length
  filled : ∃ expired opts,
    mpdGetMpaPrefixes iface now true = .ok (expired, some (opts, bufSize iface)) ∧
      List.Forall₂ (FilledFrom now) iface.prefixList opts
  noMemory : mpdGetMpaPrefixes iface now false = .ok (-1, none)

theorem bufSize_ok {s : MpdState} (ok : Ok s) :
    bufSize s.iface = int32 (s.iface.prefixList.length * 32) := by
  rw [bufSize, ok.count, int32_mul]
  rfl

theorem advertised_of_short {s : MpdState} (ok : Ok s) {now : Timespec} (reading : Reading now)
    (later : nanos s.clock ≤ nanos now) (short : s.iface.prefixList.length < 2 ^ 26) :
    Advertised s.iface now := by
  have size : (sizeofPinfo : Int) = 32 := rfl
  have room : bufSize s.iface = sizeofPinfo * s.iface.prefixList.length := by
    rw [bufSize_ok ok, int32_small (by omega) (by omega), size, mul_comm]
  have asked : sizeT (bufSize s.iface) = s.iface.prefixList.length * sizeofPinfo := by
    rw [room, sizeT, size, show sizeofPinfo = 32 from rfl]
    omega
  refine ⟨by rw [ok.count, int32_small (by omega) (by omega)], room, ?_, rfl⟩
  obtain ⟨opts, expired, filled, all⟩ := fillLoop_ok reading 0
    (show (0 + s.iface.prefixList.length) * sizeofPinfo ≤ sizeT (bufSize s.iface) by
      rw [asked, zero_add])
    (fun e member => (ok.stamped e member).later later)
  refine ⟨expired, opts, ?_, all⟩
  have granted : malloc true (sizeT (bufSize s.iface)) = true := by
    rw [malloc, asked, Bool.true_and, decide_eq_true_eq, show sizeofPinfo = 32 from rfl]
    omega
  rw [mpdGetMpaPrefixes, if_pos granted, filled]
  rfl

/-- Every advertisement is filled exactly as long as `buf_size` can say how much memory the
list needs. -/
theorem advertised_iff {maxAdv : UInt32} {clock : Timespec}
    {history : List (Timespec × MpdCall)} {final : MpdState}
    (forward : Meets (step maxAdv) Forward (start clock) history)
    (ran : run (step maxAdv) (start clock) history = .ok final) {now : Timespec}
    (reading : Reading now) (later : nanos final.clock ≤ nanos now) :
    Advertised final.iface now ↔ final.iface.prefixList.length < 2 ^ 26 := by
  have ok := ok_run forward ran
  constructor
  · intro advertised
    have size : (sizeofPinfo : Int) = 32 := rfl
    have room := advertised.room
    have below := int32_lt (final.iface.prefixList.length * 32)
    rw [← bufSize_ok ok, room, size] at below
    omega
  · exact advertised_of_short ok reading later

theorem reading_one : Reading ⟨1, 0⟩ := by decide

def numbered (k : Nat) : Pinfo where
  prefixLen := 128
  flagsReserved := onlinkAuto
  validTime := 0xffffffff
  preferredTime := 0xffffffff
  pfx := ofBytes fun i => UInt8.ofNat (k / 256 ^ (15 - i))
  bounded := by decide

/-- A prefix that stays, one that is advertised again with a shorter lifetime and
expires. -/
theorem advertised_after_expiry :
    ∃ final, run (step 86400) (start ⟨1, 0⟩)
        [(⟨1, 0⟩, .handlePinfo (numbered 0) true),
          (⟨2, 0⟩, .handlePinfo { numbered 1 with validTime := 600 } true),
          (⟨3, 0⟩, .handlePinfo { numbered 1 with validTime := 60 } true),
          (⟨70, 0⟩, .delExpiredPinfos)] = .ok final ∧
      final.iface.prefixList.map (fun e => (e.timestamp, e.pinfo.validTime)) =
        [(⟨63, 0⟩, 0), (⟨1, 0⟩, 0xffffffff)] ∧
      Advertised final.iface ⟨80, 0⟩ := by
  refine ⟨_, rfl, by decide, ?_⟩
  exact (@advertised_iff 86400 ⟨1, 0⟩
    [(⟨1, 0⟩, .handlePinfo (numbered 0) true),
      (⟨2, 0⟩, .handlePinfo { numbered 1 with validTime := 600 } true),
      (⟨3, 0⟩, .handlePinfo { numbered 1 with validTime := 60 } true),
      (⟨70, 0⟩, .delExpiredPinfos)] _ (by decide) rfl ⟨80, 0⟩ (by decide) (by decide)).mpr (by decide)

theorem pinfoListGetFrom_none {addr : In6Addr} {plen : Nat} {pl : List PrefixEntry}
    (differ : ∀ e ∈ pl, ipv6PfxCmp e.pinfo.pfx addr e.pinfo.prefixLen.toNat = true) (i : Nat) :
    pinfoListGetFrom addr plen i none pl = none := by
  induction pl generalizing i with
  | nil => rfl
  | cons e rest ih =>
      rw [pinfoListGetFrom, if_pos (differ e List.mem_cons_self)]
      exact ih (fun e member => differ e (List.mem_cons_of_mem _ member)) (i + 1)

theorem numbered_differ {j k : Nat} (before : j < k) (small : k < 2 ^ 32) :
    ipv6PfxCmp (numbered j).pfx (numbered k).pfx 128 = true := by
  by_contra same
  rw [Bool.not_eq_true, ipv6PfxCmp_eq_false _ _ (le_refl 128)] at same
  have equal := sameBits_all same
  have byte : ∀ i < 16, j / 256 ^ (15 - i) % 256 = k / 256 ^ (15 - i) % 256 := by
    intro i inside
    have here := congrArg (fun a : In6Addr => (a.get i).toNat) equal
    simpa only [numbered, get_ofBytes _ inside, UInt8.toNat_ofNat'] using here
  have first := byte 15 (by decide)
  have second := byte 14 (by decide)
  have third := byte 13 (by decide)
  have fourth := byte 12 (by decide)
  simp only [Nat.reduceSub, Nat.reducePow] at first second third fourth
  omega

/-- Prefixes `k` to `k + n - 1`, one after the other at the same time. -/
def flood (k n : Nat) : List (Timespec × MpdCall) :=
  (List.range' k n).map fun j => (⟨1, 0⟩, .handlePinfo (numbered j) true)

def flooded (n : Nat) : MpdState where
  iface :=
    { prefixList := (List.range n).reverse.map fun k => ⟨⟨1, 0⟩, numbered k⟩
      prefixCount := int32 n }
  clock := ⟨1, 0⟩

theorem step_flooded (maxAdv : UInt32) {n : Nat} (small : n < 2 ^ 32) :
    step maxAdv (flooded n) (⟨1, 0⟩, .handlePinfo (numbered n) true) = .ok (flooded (n + 1)) := by
  have absent : pinfoListGet (flooded n).iface.prefixList (numbered n).pfx
      (numbered n).prefixLen.toNat = none := by
    apply pinfoListGetFrom_none
    intro e member
    obtain ⟨k, inRange, rfl⟩ := List.mem_map.mp member
    exact numbered_differ (List.mem_range.mp (List.mem_reverse.mp inRange)) small
  simp only [step, apply, mpdHandlePinfo, absent, if_true]
  simp only [flooded, List.range_succ, List.reverse_append, List.reverse_singleton,
    List.singleton_append, List.map_cons, int32_add, Int.natCast_succ]

theorem run_flood (maxAdv : UInt32) (n : Nat) {k : Nat} (small : k + n ≤ 2 ^ 32) :
    run (step maxAdv) (flooded k) (flood k n) = .ok (flooded (k + n)) ∧
      Meets (step maxAdv) Forward (flooded k) (flood k n) := by
  induction n generalizing k with
  | zero => exact ⟨rfl, trivial⟩
  | succ n ih =>
      have taken := step_flooded maxAdv (show k < 2 ^ 32 by omega)
      obtain ⟨ran, meets⟩ := @ih (k + 1) (by omega)
      rw [flood, List.range'_succ, List.map_cons]
      refine ⟨?_, ⟨reading_one, le_refl _⟩, ?_⟩
      · rw [run, taken]
        change run (step maxAdv) (flooded (k + 1)) (flood (k + 1) n) = _
        rw [ran, show k + 1 + n = k + (n + 1) by omega]
      · intro next isNext
        rw [taken] at isNext
        cases isNext
        exact meets

/-- With 2^27 prefixes `buf_size` is zero, and the first option is written behind the
buffer. -/
theorem flooded_overrun :
    run (step 86400) (start ⟨1, 0⟩) (flood 0 (2 ^ 27)) = .ok (flooded (2 ^ 27)) ∧
      Meets (step 86400) Forward (start ⟨1, 0⟩) (flood 0 (2 ^ 27)) ∧
      mpdGetMpaPrefixes (flooded (2 ^ 27)).iface ⟨1, 0⟩ true = .error .overrun ∧
      ¬Advertised (flooded (2 ^ 27)).iface ⟨1, 0⟩ := by
  have first : flooded 0 = start ⟨1, 0⟩ := by
    simp only [flooded, start, List.range_zero, List.reverse_nil, List.map_nil, Int.natCast_zero,
      int32_small (le_refl (0 : Int)) (by decide)]
  obtain ⟨ran, meets⟩ := run_flood 86400 (2 ^ 27) (show 0 + 2 ^ 27 ≤ 2 ^ 32 by decide)
  rw [zero_add] at ran
  have zero : sizeT (bufSize (flooded (2 ^ 27)).iface) = 0 := by
    have count : bufSize (flooded (2 ^ 27)).iface =
        int32 (int32 ((2 ^ 27 : Nat) : Int) * sizeofPinfo) := rfl
    rw [count, int32_mul]
    decide
  have overrun : mpdGetMpaPrefixes (flooded (2 ^ 27)).iface ⟨1, 0⟩ true = .error .overrun := by
    have list : ∃ e rest, (flooded (2 ^ 27)).iface.prefixList = e :: rest := by
      rw [← List.ne_nil_iff_exists_cons, ← List.length_pos_iff]
      simp [flooded]
    obtain ⟨e, rest, isCons⟩ := list
    rw [mpdGetMpaPrefixes, zero, if_pos (by decide), isCons, fillLoop, if_neg (by decide)]
    rfl
  refine ⟨first ▸ ran, first ▸ meets, overrun, ?_⟩
  intro advertised
  obtain ⟨expired, opts, filled, -⟩ := advertised.filled
  rw [overrun] at filled
  cases filled

end OaiPmip.MpdPrefixes
