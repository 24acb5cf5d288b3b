import OaiPmip.CnAnswers
import OaiPmip.HaPrefixes

/-!
# The lifetime that a home agent grants: ha.c, mpdisc_ha.c and prefix.c

The requested lifetime is cut down to what is left of the home prefix, to the
maximum of the policy and to what the acknowledgement can say.  Seconds are
compared as `unsigned long`, here of 64 bits.
-/

set_option autoImplicit false

namespace OaiPmip.HaLifetimes

open OaiPmip.Cn OaiPmip.Ha OaiPmip.Msgs

/-- `struct prefix_list_entry` with its lifetimes. -/
structure HaPrefix extends PrefixListEntry where
  timestamp : Timespec
  pleValidTime : UInt32
  plePrefdTime : UInt32
  deriving DecidableEq

/-- Advertised prefixes longer than 128 bits are dropped before they are listed. -/
structure HaInterface where
  ifindex : Int
  addrList : List In6Addr
  prefixList : List HaPrefix
  bounded : ∀ p ∈ prefixList, p.plePlen.toNat ≤ 128

/-- The loop of `prefix_list_get` on entries with lifetimes. -/
def haPrefixListGetFrom (addr : In6Addr) (plen : Nat) :
    Option HaPrefix → List HaPrefix → Option HaPrefix
  | p1, [] => p1
  | p1, p2 :: rest =>
      if ipv6PfxCmp p2.plePrefix addr p2.plePlen.toNat then haPrefixListGetFrom addr plen p1 rest
      else if plen > 0 then
        if p2.plePlen.toNat = plen then some p2 else haPrefixListGetFrom addr plen p1 rest
      else if p1.all fun p1 => p1.plePlen < p2.plePlen then
        haPrefixListGetFrom addr plen (some p2) rest
      else haPrefixListGetFrom addr plen p1 rest

def haPrefixListGet (pl : List HaPrefix) (addr : In6Addr) (plen : Nat) : Option HaPrefix :=
  haPrefixListGetFrom addr plen none pl

def haGetIfByAddr (interfaces : List HaInterface) (addr : In6Addr) : Option HaInterface :=
  interfaces.find? fun iface => iface.addrList.contains addr

def umin (a b : UInt64) : UInt64 := if a < b then a else b

def maxBindingLifetime : UInt64 := (0xffff : UInt64) <<< (2 : UInt64)

/-- `prefix_lft_infinite`, which is given the low 32 bits. -/
def prefixLftInfinite (lft : UInt64) : Bool := lft.toUInt32 = 0xffffffff

def mpdCurrLft (now tstamp : Timespec) (lft : UInt64) : UInt64 :=
  if prefixLftInfinite lft then lft
  else
    let tmp := tssub now tstamp
    let diff := UInt64.ofInt tmp.tvSec
    let diff := if tmp.tvNsec > 0 then diff + 1 else diff
    if lft > diff then lft - diff else 0

def dadTimeout : UInt64 := 1

def tssetsec (sec : UInt64) : Timespec := ⟨sec.toInt64.toInt, 0⟩

def mpdSanitizeLft (lft : Timespec) : Timespec :=
  tssetsec (umin (UInt64.ofInt lft.tvSec) maxBindingLifetime &&& maxBindingLifetime)

def basPrfxDiscov : Int := 1
def basNotHomeSubnet : Int := 132
def basNotHa : Int := 133
def basSeqnoBad : Int := 135
def basRegNotAllowed : Int := 139

/-- What `mpd_prefix_check` returns and stores. -/
structure PrefixCheck where
  res : Int
  lft : Timespec
  ifindex : Int
  deriving DecidableEq

/-- `mpd_prefix_check`; -ENODEV is -19 and -ENOENT is -2. -/
def mpdPrefixCheck (interfaces : List HaInterface) (dst src : In6Addr) (lft : Timespec)
    (ifindex : Int) (dad : Bool) (now : Timespec) : PrefixCheck :=
  match haGetIfByAddr interfaces dst with
  | none => ⟨-19, lft, ifindex⟩
  | some i =>
      match haPrefixListGet i.prefixList src 0 with
      | none => ⟨-2, lft, ifindex⟩
      | some p =>
          let valid := umin (mpdCurrLft now p.timestamp p.pleValidTime.toUInt64)
            (maxBindingLifetime + 1)
          let preferred := umin (mpdCurrLft now p.timestamp p.plePrefdTime.toUInt64)
            (maxBindingLifetime + 1)
          let valid := if valid = 0 then valid else if dad then valid - dadTimeout else valid
          let res := if preferred ≤ UInt64.ofInt lft.tvSec then basPrfxDiscov else basAccepted
          let lft := if valid < UInt64.ofInt lft.tvSec then
            tssetsec (umin valid maxBindingLifetime) else lft
          ⟨res, lft, i.ifindex⟩

structure Pmgr (Bu : Type) where
  discardBinding : Bu → Int
  maxBindingLife : Bu → Timespec → Option Timespec
  positive : ∀ bu lft tmp, maxBindingLife bu lft = some tmp → 0 ≤ tmp.tvSec

/-! ## The worker -/

/-- `struct ha_recv_bu_args` of a home registration; the lifetime comes out of a
field of sixteen bits. -/
structure HomeBu where
  src : In6Addr
  dst : In6Addr
  seqno : UInt16
  isHome : Bool
  isMobRtr : Bool
  lft : Timespec
  home : isHome = true
  asked : ∃ units : UInt16, lft = ⟨4 * units.toNat, 0⟩

def defaultMaxBindingLife (haMaxBindingLife : UInt32) (bu : HomeBu) (_ : Timespec) :
    Option Timespec :=
  if bu.isHome then some ⟨haMaxBindingLife.toNat, 0⟩ else none

def defaultPmgr (discardBinding : HomeBu → Int) (haMaxBindingLife : UInt32) : Pmgr HomeBu where
  discardBinding := discardBinding
  maxBindingLife := defaultMaxBindingLife haMaxBindingLife
  positive := by
    intro bu lft tmp answer
    rw [defaultMaxBindingLife, if_pos bu.home] at answer
    cases answer
    exact Int.natCast_nonneg _

theorem lifetime_asked {dupBeyond : Nat → Bool} {known : BcKey → Bool} {m : Bu}
    {remoteCoa : Option In6Addr} {q : Request}
    (parsed : mhBuParse dupBeyond known m remoteCoa = some q) :
    ∃ units : UInt16, q.lifetime = ⟨4 * units.toNat, 0⟩ := by
  obtain ⟨mhOpts, -, same⟩ := mhBuParse_eq parsed
  rw [same]
  by_cases atHome : q.bindCoa = m.src
  · exact ⟨0, if_pos atHome⟩
  · exact ⟨ntohs (load16 m.buffer 10), if_neg atHome⟩

/-- `ha_recv_home_bu` up to its worker, with `ha_home_bu_check`. -/
def haRecvHomeBu (dupBeyond : Nat → Bool) (known : BcKey → Bool) (m : Bu)
    (remoteCoa : Option In6Addr) : Option HomeBu :=
  match parsed : mhBuParse dupBeyond known m remoteCoa with
  | none => none
  | some q =>
      if check : q.isHome = true ∧ q.nonInd = none ∧ q.hasAuth = false then
        some
          { src := m.dst
            dst := m.src
            seqno := q.seqno
            isHome := q.isHome
            isMobRtr := isMobRtr m.buffer
            lft := q.lifetime
            home := check.1
            asked := lifetime_asked parsed }
      else none

/-- What the worker is given, `cn_recv_bu` does not bind. -/
theorem cnBuCheck_homeBu {dupBeyond : Nat → Bool} {known : BcKey → Bool} {m : Bu}
    {remoteCoa : Option In6Addr} {q : Request} {bu : HomeBu}
    (parsed : mhBuParse dupBeyond known m remoteCoa = some q)
    (given : haRecvHomeBu dupBeyond known m remoteCoa = some bu) (authentic : Authentic)
    (s : State) (now : Timespec) : cnBuCheck authentic s now m q ≠ some .accepted := by
  have isHome : q.isHome = true := by
    simp only [haRecvHomeBu] at given
    split at given
    · cases given
    · rename_i other isOther
      rw [parsed, Option.some.injEq] at isOther
      subst isOther
      split at given
      · rename_i check
        exact check.1
      · cases given
  simp only [cnBuCheck, isHome, if_true]
  split
  · exact fun same => by cases same
  · split
    · exact fun same => by cases same
    · exact fun same => by cases same

structure HaConf where
  interfaces : List HaInterface
  nemoHaServedPrefixes : List PrefixListEntry
  pmgr : Pmgr HomeBu

structure CachedBce where
  type : EntryType
  flagsDiffer : Bool
  seqno : UInt16

/-- `HA_BU_F_PASSIVE_SEQ` and `HA_BU_F_SKIP_BA`. -/
structure HaBuFlags where
  passiveSeq : Bool
  skipBa : Bool

def cachedStatus (bu : HomeBu) (flags : HaBuFlags) : Option CachedBce → Option Int
  | none => if tsisset bu.lft then none else some basNotHa
  | some bce =>
      if bce.type ≠ .nonceBlock then
        if bce.flagsDiffer then some basRegNotAllowed
        -- -EBUSY: the binding is being set up
        else if bce.type = .dad then some (-16)
        else if !mip6SeqGt bu.seqno bce.seqno && !flags.passiveSeq then some basSeqnoBad
        else none
      else if tsisset bu.lft then none else some basUnspecified

/-- From the prefix check to `mpd_sanitize_lft`. -/
def haGrant (conf : HaConf) (bu : HomeBu) (now : Timespec) : Except Int (Int × Timespec) :=
  let check := mpdPrefixCheck conf.interfaces bu.src bu.dst bu.lft 0 false now
  if check.res < 0 ∧ (!bu.isMobRtr ∨ check.ifindex = 0 ∨
      (prefixListGet conf.nemoHaServedPrefixes bu.dst 0).isNone) then .error basNotHomeSubnet
  else
    let status := conf.pmgr.discardBinding bu
    if status ≥ basUnspecified then .error status
    else
      let lft :=
        match conf.pmgr.maxBindingLife bu check.lft with
        | none => check.lft
        | some tmp => if tsbefore check.lft tmp then tmp else check.lft
      .ok (status, mpdSanitizeLft lft)

/-- What a worker ends with; a positive answer has the lifetime field as a number. -/
inductive Outcome where
  | refused (status : Int)
  | bound (status : Int) (stored : Timespec) (acknowledged : Option UInt16)

/-- `lifetime->tv_sec >> 2` in `mh_send_ba`. -/
def lifetimeField (lft : Timespec) : UInt16 := UInt16.ofInt (lft.tvSec >>> (2 : Nat))

/-- `setUp` is the status of a step behind the policy that fails: memory, duplicate
address detection, mobile network prefixes, the tunnel and the routes. -/
def haRecvBuWorker (conf : HaConf) (bu : HomeBu) (flags : HaBuFlags) (bce : Option CachedBce)
    (now : Timespec) (setUp : Int → Timespec → Option Int) : Outcome :=
  match cachedStatus bu flags bce with
  | some status => .refused status
  | none =>
      match haGrant conf bu now with
      | .error status => .refused status
      | .ok (status, lft) =>
          match setUp status lft with
          | some failed => .refused failed
          | none => .bound status lft (if flags.skipBa then none else some (lifetimeField lft))

theorem umin_toNat (a b : UInt64) : (umin a b).toNat = min a.toNat b.toNat := by
  rw [umin]
  by_cases less : a < b
  · rw [if_pos less]
    have order : a.toNat < b.toNat := less
    omega
  · rw [if_neg less]
    have order : ¬a.toNat < b.toNat := less
    omega

theorem maxBindingLifetime_toNat : maxBindingLifetime.toNat = 262140 := by decide

theorem ofInt_toNat {seconds : Int} (positive : 0 ≤ seconds) (small : seconds < 2 ^ 64) :
    ((UInt64.ofInt seconds).toNat : Int) = seconds := by
  have wraps : seconds % 2 ^ 64 = seconds := Int.emod_eq_of_lt positive small
  rw [UInt64.ofInt, wraps, UInt64.toNat_ofNat']
  omega

theorem tssetsec_small {sec : UInt64} (small : sec.toNat < 2 ^ 63) :
    tssetsec sec = ⟨sec.toNat, 0⟩ := by
  have signed : sec.toInt64.toInt = sec.toNat := by
    change sec.toBitVec.toInt = _
    rw [BitVec.toInt_eq_toNat_cond]
    refine if_pos ?_
    change 2 * sec.toNat < 2 ^ 64
    omega
  rw [tssetsec, signed]

/-! ## The granted lifetime -/

def LongestMatch (pl : List HaPrefix) (addr : In6Addr) (p : HaPrefix) : Prop :=
  p ∈ pl ∧ SameBits p.plePrefix addr p.plePlen.toNat ∧
    ∀ q ∈ pl, SameBits q.plePrefix addr q.plePlen.toNat → q.plePlen ≤ p.plePlen

theorem haPrefixListGetFrom_longest {addr : In6Addr} {p : HaPrefix} :
    ∀ {pl : List HaPrefix} {p1 : Option HaPrefix},
      haPrefixListGetFrom addr 0 p1 pl = some p →
      (p1 = some p ∨ p ∈ pl ∧ ipv6PfxCmp p.plePrefix addr p.plePlen.toNat = false) ∧
        (∀ q ∈ p1, q.plePlen ≤ p.plePlen) ∧
        ∀ q ∈ pl, ipv6PfxCmp q.plePrefix addr q.plePlen.toNat = false →
          q.plePlen ≤ p.plePlen := by
  intro pl
  induction pl with
  | nil =>
      intro p1 found
      rw [haPrefixListGetFrom] at found
      subst found
      exact ⟨.inl rfl, fun q same => by cases same; exact UInt8.le_refl _,
        fun q none_ => absurd none_ List.not_mem_nil⟩
  | cons p2 rest ih =>
      intro p1 found
      simp only [haPrefixListGetFrom] at found
      split at found
      · rename_i differs
        obtain ⟨origin, before, longest⟩ := ih found
        refine ⟨origin.imp_right fun both => ⟨List.mem_cons_of_mem _ both.1, both.2⟩, before, ?_⟩
        intro q member same
        rcases List.mem_cons.mp member with rfl | later
        · exact absurd (differs.symm.trans same) (by decide)
        · exact longest q later same
      · rename_i matches_
        rw [if_neg (Nat.lt_irrefl 0)] at found
        split at found
        · rename_i longer
          obtain ⟨origin, before, longest⟩ := ih found
          have least : p2.plePlen ≤ p.plePlen := before p2 rfl
          refine ⟨.inr ?_, ?_, ?_⟩
          · rcases origin with isP2 | ⟨member, same⟩
            · cases isP2
              exact ⟨List.mem_cons_self, by simpa using matches_⟩
            · exact ⟨List.mem_cons_of_mem _ member, same⟩
          · intro q isP1
            cases isP1
            have shorter : q.plePlen < p2.plePlen := by simpa using longer
            exact UInt8.le_trans (UInt8.le_of_lt shorter) least
          · intro q member same
            rcases List.mem_cons.mp member with rfl | later
            · exact least
            · exact longest q later same
        · rename_i notLonger
          obtain ⟨origin, before, longest⟩ := ih found
          refine ⟨origin.imp_right fun both => ⟨List.mem_cons_of_mem _ both.1, both.2⟩, before, ?_⟩
          intro q member same
          rcases List.mem_cons.mp member with rfl | later
          · cases p1 with
            | none => simp at notLonger
            | some p1 =>
                have atLeast : q.plePlen ≤ p1.plePlen := by simpa using notLonger
                exact UInt8.le_trans atLeast (before p1 rfl)
          · exact longest q later same

theorem haPrefixListGet_longest {i : HaInterface} {addr : In6Addr} {p : HaPrefix}
    (found : haPrefixListGet i.prefixList addr 0 = some p) : LongestMatch i.prefixList addr p := by
  obtain ⟨origin, -, longest⟩ := haPrefixListGetFrom_longest found
  have isP := origin.resolve_left (by simp)
  refine ⟨isP.1, (ipv6PfxCmp_eq_false _ _ (i.bounded p isP.1)).mp isP.2, ?_⟩
  intro q member same
  exact longest q member ((ipv6PfxCmp_eq_false _ _ (i.bounded q member)).mpr same)

/-- Whole seconds that a binding acknowledgement can say, rounded or not. -/
structure Sane (lft : Timespec) : Prop where
  positive : 0 ≤ lft.tvSec
  small : lft.tvSec ≤ 262140

theorem HomeBu.sane (bu : HomeBu) : Sane bu.lft := by
  obtain ⟨units, same⟩ := bu.asked
  have bound := units.toNat_lt
  rw [same]
  exact ⟨by dsimp only; omega, by dsimp only; omega⟩

def remaining (now : Timespec) (p : HaPrefix) : Nat :=
  (mpdCurrLft now p.timestamp p.pleValidTime.toUInt64).toNat

theorem cut_le {lft : Timespec} (sane : Sane lft) (left : UInt64) {cut : Timespec}
    (isCut : cut = if umin left (maxBindingLifetime + 1) < UInt64.ofInt lft.tvSec then
      tssetsec (umin (umin left (maxBindingLifetime + 1)) maxBindingLifetime) else lft) :
    Sane cut ∧ cut.tvSec ≤ lft.tvSec ∧ cut.tvSec ≤ left.toNat := by
  obtain ⟨positive, small⟩ := sane
  have asked := ofInt_toNat positive (by omega)
  have limit : (maxBindingLifetime + 1).toNat = 262141 := by decide
  have valid := umin_toNat left (maxBindingLifetime + 1)
  have granted := umin_toNat (umin left (maxBindingLifetime + 1)) maxBindingLifetime
  rw [limit] at valid
  rw [maxBindingLifetime_toNat] at granted
  by_cases less : umin left (maxBindingLifetime + 1) < UInt64.ofInt lft.tvSec
  · have order : (umin left (maxBindingLifetime + 1)).toNat < (UInt64.ofInt lft.tvSec).toNat := less
    rw [if_pos less, tssetsec_small (by omega)] at isCut
    subst isCut
    exact ⟨⟨by dsimp only; omega, by dsimp only; omega⟩, by dsimp only; omega,
      by dsimp only; omega⟩
  · have order : ¬(umin left (maxBindingLifetime + 1)).toNat < (UInt64.ofInt lft.tvSec).toNat :=
      less
    rw [if_neg less] at isCut
    subst isCut
    exact ⟨⟨positive, small⟩, Int.le_refl _, by omega⟩

/-- The prefix check succeeds only with a prefix, and cuts the lifetime down to it. -/
theorem mpdPrefixCheck_ok {interfaces : List HaInterface} {dst src : In6Addr} {lft now : Timespec}
    (sane : Sane lft)
    (passes : ¬((mpdPrefixCheck interfaces dst src lft 0 false now).res < 0 ∧
      (mpdPrefixCheck interfaces dst src lft 0 false now).ifindex = 0)) :
    ∃ i p, haGetIfByAddr interfaces dst = some i ∧ LongestMatch i.prefixList src p ∧
      Sane (mpdPrefixCheck interfaces dst src lft 0 false now).lft ∧
      (mpdPrefixCheck interfaces dst src lft 0 false now).lft.tvSec ≤ lft.tvSec ∧
      (mpdPrefixCheck interfaces dst src lft 0 false now).lft.tvSec ≤ remaining now p := by
  cases here : haGetIfByAddr interfaces dst with
  | none =>
      simp [mpdPrefixCheck, here] at passes
  | some i =>
      cases found : haPrefixListGet i.prefixList src 0 with
      | none => simp [mpdPrefixCheck, here, found] at passes
      | some p =>
          refine ⟨i, p, rfl, haPrefixListGet_longest found, ?_⟩
          apply cut_le sane
          simp only [mpdPrefixCheck, here, found, Bool.false_eq_true, if_false, ite_self]

theorem tsbefore_seconds (first second : Timespec) :
    if tsbefore first second = true then second.tvSec ≤ first.tvSec
    else first.tvSec ≤ second.tvSec := by
  by_cases same : first.tvSec = second.tvSec
  · have either : second.tvSec ≤ first.tvSec ∧ first.tvSec ≤ second.tvSec := by omega
    split
    · exact either.1
    · exact either.2
  · by_cases longer : first.tvSec > second.tvSec
    · rw [if_pos (by simpa [tsbefore, same] using longer)]
      omega
    · rw [if_neg (by simpa [tsbefore, same] using longer)]
      omega

theorem policy_le {lft tmp granted : Timespec} (sane : Sane lft) (positive : 0 ≤ tmp.tvSec)
    (isGranted : granted = if tsbefore lft tmp then tmp else lft) :
    Sane granted ∧ granted.tvSec ≤ lft.tvSec ∧ granted.tvSec ≤ tmp.tvSec := by
  obtain ⟨notNegative, small⟩ := sane
  have order := tsbefore_seconds lft tmp
  by_cases longer : tsbefore lft tmp = true
  · rw [if_pos longer] at order isGranted
    subst isGranted
    exact ⟨⟨positive, by omega⟩, order, Int.le_refl _⟩
  · rw [if_neg longer] at order isGranted
    subst isGranted
    exact ⟨⟨notNegative, small⟩, Int.le_refl _, order⟩

/-- A lifetime in units of four seconds, as many as fit into the field. -/
structure Encodable (lft : Timespec) : Prop where
  whole : lft.tvNsec = 0
  units : ∃ units : UInt16, lft.tvSec = 4 * units.toNat ∧ lifetimeField lft = units

theorem lifetimeField_fours {units : Nat} (small : units < 65536) :
    (lifetimeField ⟨((4 * units : Nat) : Int), 0⟩).toNat = units := by
  have shifted : ((4 * units : Nat) : Int) >>> (2 : Nat) = (units : Int) := by
    rw [Int.shiftRight_eq_div_pow]
    omega
  have wraps : ((units : Int) % 2 ^ 16).toNat = units := by omega
  rw [lifetimeField, shifted, UInt16.ofInt, wraps, UInt16.toNat_ofNat']
  omega

theorem sanitized {lft : Timespec} (sane : Sane lft) :
    Encodable (mpdSanitizeLft lft) ∧ (mpdSanitizeLft lft).tvSec ≤ lft.tvSec := by
  obtain ⟨positive, small⟩ := sane
  have seconds := ofInt_toNat positive (by omega)
  have capped := umin_toNat (UInt64.ofInt lft.tvSec) maxBindingLifetime
  rw [maxBindingLifetime_toNat] at capped
  have masked : (umin (UInt64.ofInt lft.tvSec) maxBindingLifetime &&& maxBindingLifetime).toNat =
      (umin (UInt64.ofInt lft.tvSec) maxBindingLifetime).toNat &&& 262140 := by
    rw [UInt64.toNat_and, maxBindingLifetime_toNat]
  have most : (umin (UInt64.ofInt lft.tvSec) maxBindingLifetime).toNat &&& 262140 ≤
      (umin (UInt64.ofInt lft.tvSec) maxBindingLifetime).toNat := Nat.and_le_left
  have fours : ((umin (UInt64.ofInt lft.tvSec) maxBindingLifetime).toNat &&& 262140) % 2 ^ 2 =
      0 := by
    rw [Nat.and_mod_two_pow]
    exact Nat.and_zero _
  obtain ⟨units, isUnits⟩ : ∃ units, (umin (UInt64.ofInt lft.tvSec) maxBindingLifetime &&&
      maxBindingLifetime).toNat = 4 * units := by
    rw [masked]
    exact Nat.dvd_of_mod_eq_zero fours
  have granted : mpdSanitizeLft lft = ⟨((4 * units : Nat) : Int), 0⟩ := by
    rw [mpdSanitizeLft, tssetsec_small (by omega), isUnits]
  have fits : units < 65536 := by omega
  rw [granted]
  refine ⟨⟨rfl, UInt16.ofNat units, ?_, ?_⟩, by dsimp only; omega⟩
  · rw [UInt16.toNat_ofNat']
    dsimp only
    omega
  · apply UInt16.toNat_inj.mp
    rw [lifetimeField_fours fits, UInt16.toNat_ofNat']
    omega

/-- What `default_max_binding_life` makes of a policy module. -/
def IsDefault (pmgr : Pmgr HomeBu) (haMaxBindingLife : UInt32) : Prop :=
  pmgr.maxBindingLife = defaultMaxBindingLife haMaxBindingLife

structure Granted (conf : HaConf) (bu : HomeBu) (now : Timespec) (lft : Timespec) : Prop where
  asked : lft.tvSec ≤ bu.lft.tvSec
  left : ∃ i p, haGetIfByAddr conf.interfaces bu.src = some i ∧
    LongestMatch i.prefixList bu.dst p ∧ lft.tvSec ≤ remaining now p
  policy : ∀ haMaxBindingLife, IsDefault conf.pmgr haMaxBindingLife →
    lft.tvSec ≤ haMaxBindingLife.toNat
  encodable : Encodable lft

theorem haGrant_ok {conf : HaConf} {bu : HomeBu} {now : Timespec} {status : Int} {lft : Timespec}
    (ok : haGrant conf bu now = .ok (status, lft)) : Granted conf bu now lft := by
  rw [haGrant] at ok
  split at ok
  · cases ok
  · rename_i passes
    obtain ⟨i, p, here, longest, sane, asked, left⟩ := @mpdPrefixCheck_ok conf.interfaces bu.src
      bu.dst bu.lft now bu.sane fun both => passes ⟨both.1, .inr (.inl both.2)⟩
    generalize mpdPrefixCheck conf.interfaces bu.src bu.dst bu.lft 0 false now = check at *
    dsimp only at ok
    split at ok
    · cases ok
    · cases ok
      cases answer : conf.pmgr.maxBindingLife bu check.lft with
      | none =>
          obtain ⟨encodable, less⟩ := sanitized sane
          refine ⟨Int.le_trans less asked, ⟨i, p, here, longest, Int.le_trans less left⟩, ?_,
            encodable⟩
          intro haMaxBindingLife isDefault
          rw [isDefault, defaultMaxBindingLife, if_pos bu.home] at answer
          cases answer
      | some tmp =>
          have positive := conf.pmgr.positive bu check.lft tmp answer
          obtain ⟨stillSane, shorter, atMost⟩ := policy_le sane positive rfl
          obtain ⟨encodable, less⟩ := sanitized stillSane
          have cut := Int.le_trans less shorter
          refine ⟨Int.le_trans cut asked, ⟨i, p, here, longest, Int.le_trans cut left⟩, ?_,
            encodable⟩
          intro haMaxBindingLife isDefault
          rw [isDefault, defaultMaxBindingLife, if_pos bu.home] at answer
          cases answer
          exact Int.le_trans less atMost

/-- Whatever is cached, and whatever the steps behind the policy do. -/
theorem ha_granted_lifetime {conf : HaConf} {bu : HomeBu} {flags : HaBuFlags}
    {bce : Option CachedBce} {now : Timespec} {setUp : Int → Timespec → Option Int} {status : Int}
    {stored : Timespec} {acknowledged : Option UInt16}
    (bound : haRecvBuWorker conf bu flags bce now setUp = .bound status stored acknowledged) :
    Granted conf bu now stored ∧
      ∀ field, acknowledged = some field → stored = ⟨4 * field.toNat, 0⟩ := by
  rw [haRecvBuWorker] at bound
  split at bound
  · cases bound
  · split at bound
    · cases bound
    · rename_i granted
      split at bound
      · cases bound
      · cases bound
        have bounds := haGrant_ok granted
        refine ⟨bounds, ?_⟩
        intro field isField
        obtain ⟨whole, units, seconds, encoded⟩ := bounds.encodable
        split at isField
        · cases isField
        · cases isField
          rw [encoded, ← seconds, ← whole]

/-- A home agent with a prefix of sixty-four bits that is valid for a thousand
seconds. -/
def homeConf : HaConf where
  interfaces := [{
    ifindex := 3
    addrList := [⟨[0x20, 1, 0xd, 0xb8, 0, 0, 0, 0, 0, 0, 0, 0, 0, 0, 0, 0xa], rfl⟩]
    prefixList := [{
      plePlen := 64
      plePrefix := ⟨[0x20, 1, 0xd, 0xb8, 0, 0, 0, 0, 0, 0, 0, 0, 0, 0, 0, 0], rfl⟩
      timestamp := ⟨100, 0⟩
      pleValidTime := 1000
      plePrefdTime := 800 }]
    bounded := by decide }]
  nemoHaServedPrefixes := []
  pmgr := defaultPmgr (fun _ => 0) 262140

def homeBu : HomeBu where
  src := ⟨[0x20, 1, 0xd, 0xb8, 0, 0, 0, 0, 0, 0, 0, 0, 0, 0, 0, 0xa], rfl⟩
  dst := ⟨[0x20, 1, 0xd, 0xb8, 0, 0, 0, 0, 0, 0, 0, 0, 0, 0, 0, 0x77], rfl⟩
  seqno := 9
  isHome := true
  isMobRtr := false
  lft := ⟨2000, 0⟩
  home := rfl
  asked := ⟨500, rfl⟩

theorem ha_granted_lifetime_cut :
    Granted homeConf homeBu ⟨350, 5⟩ ⟨748, 0⟩ ∧
      ∀ field : UInt16, some 187 = some field → (⟨748, 0⟩ : Timespec) = ⟨4 * field.toNat, 0⟩ :=
  ha_granted_lifetime (show haRecvBuWorker homeConf homeBu ⟨false, false⟩ none ⟨350, 5⟩
    (fun _ _ => none) = .bound 0 ⟨748, 0⟩ (some 187) from rfl)

end OaiPmip.HaLifetimes
