import OaiPmip.Msgs

/-!
# Mobile network prefixes of the home agent: prefix.c, policy.c and ha.c

A mobile router lists its prefixes in options of its binding update.  The policy
looks every option up among the prefixes of the router's ACL entry; the binding
takes the prefixes out of the options in a second walk.  `prefix_list_get`
compares the lengths only if it is given one above zero.
-/

set_option autoImplicit false

namespace OaiPmip.Ha

open OaiPmip.Msgs

/-- The fields of `struct prefix_list_entry` that make a prefix. -/
structure PrefixListEntry where
  plePlen : UInt8
  plePrefix : In6Addr
  deriving DecidableEq

/-- `ipv6_pfx_cmp`, for at most 128 bits: whether the prefixes differ. -/
def ipv6PfxCmp (p1 p2 : In6Addr) (plen : Nat) : Bool :=
  let o := plen / 8
  let b := plen % 8
  if p1.bytes.take o ≠ p2.bytes.take o then true
  else if b = 0 then false
  else ((p1.get o).toNat ^^^ (p2.get o).toNat) &&& (0xff00 >>> b) ≠ 0

/-- The loop of `prefix_list_get` with the entry found so far. -/
def prefixListGetFrom (addr : In6Addr) (plen : Nat) :
    Option PrefixListEntry → List PrefixListEntry → Option PrefixListEntry
  | p1, [] => p1
  | p1, p2 :: rest =>
      if ipv6PfxCmp p2.plePrefix addr p2.plePlen.toNat then prefixListGetFrom addr plen p1 rest
      else if plen > 0 then
        if p2.plePlen.toNat = plen then some p2 else prefixListGetFrom addr plen p1 rest
      else
        -- the longest matching prefix
        match p1 with
        | none => prefixListGetFrom addr plen (some p2) rest
        | some p1 =>
            if p1.plePlen < p2.plePlen then prefixListGetFrom addr plen (some p2) rest
            else prefixListGetFrom addr plen (some p1) rest

def prefixListGet (pl : List PrefixListEntry) (addr : In6Addr) (plen : Nat) :
    Option PrefixListEntry :=
  prefixListGetFrom addr plen none pl

/-- The loop of `mh_opt_next`, which goes on by at least one byte a turn. -/
def optNextLoop (mh : Buffer) (type : UInt8) (last : Nat) : Nat → Nat → Option Nat
  | 0, _ => none
  | fuel + 1, i =>
      if i < last then
        let i := if mh i = 0 then i + 1 else i + ((mh (i + 1)).toNat + 2)
        if i ≤ last ∧ mh i = type then some i else optNextLoop mh type last fuel i
      else none

def mhOptNext (mh : Buffer) (mhOpts : MhOptions) (opt : Nat) : Option Nat :=
  let last := mhOpts.optsEnd (mh opt).toNat
  optNextLoop mh (mh opt) last (last - opt) opt

/-- The options that a loop with `mh_opt_next` visits from one on. -/
def optsFrom (mh : Buffer) (mhOpts : MhOptions) : Nat → Nat → List Nat
  | 0, opt => [opt]
  | fuel + 1, opt =>
      opt :: match mhOptNext mh mhOpts opt with
        | none => []
        | some next => optsFrom mh mhOpts fuel next

/-- `for (op = mh_opt(..); op != NULL; op = mh_opt_next(..))`. -/
def optsVisited (mh : Buffer) (mhOpts : MhOptions) (type : Nat) : List Nat :=
  match mhOpt mhOpts type with
  | none => []
  | some opt => optsFrom mh mhOpts (mhOpts.optsEnd (mh opt).toNat - opt) opt

def ip6MhoptMobNetPrfx : Nat := 6

def mobNetPrefix (mh : Buffer) (op : Nat) : PrefixListEntry where
  plePlen := mh (op + 3)
  plePrefix := copy 16 mh (op + 4)

/-- `struct policy_bind_acl_entry`; the configuration file has no prefix longer
than 128 bits. -/
structure PolicyBindAclEntry where
  bindPolicy : Int
  mobNetPrefixes : List PrefixListEntry
  bounded : ∀ p ∈ mobNetPrefixes, p.plePlen.toNat ≤ 128

structure Policy where
  haAcceptMobRtr : Bool
  defBindPolicy : Int
  policyBindAcl : In6Addr → Option PolicyBindAclEntry

def basAccepted : Int := 0
def basUnspecified : Int := 128
def basFwdingFailed : Int := 143
def basInvalPrfx : Int := 141
def basMrOpNotPermitted : Int := 140
def basNotAuthForPrfx : Int := 142

/-- `struct ha_recv_bu_args`: the copy of an update that was parsed, with its
options and its home address. -/
structure HaRecvBuArgs (dupBeyond : Nat → Bool) where
  bu : Buffer
  len : Nat
  mhOpts : MhOptions
  dst : In6Addr
  parsed : mhOptParse dupBeyond bu len 12 = some mhOpts

/-- `IP6_MH_BU_MR`. -/
def isMobRtr (bu : Buffer) : Bool := bu 8 &&& 0x04 ≠ 0

def policyCheckMobNetPrefix (acl : PolicyBindAclEntry) (bu : Buffer) (opts : MhOptions) : Int :=
  if (optsVisited bu opts ip6MhoptMobNetPrfx).all fun op =>
      (prefixListGet acl.mobNetPrefixes (mobNetPrefix bu op).plePrefix
        (mobNetPrefix bu op).plePlen.toNat).isSome then basAccepted
  else basNotAuthForPrfx

variable {dupBeyond : Nat → Bool}

/-- `default_discard_binding`, which parses the options once more. -/
def defaultDiscardBinding (policy : Policy) (arg : HaRecvBuArgs dupBeyond) : Int :=
  if isMobRtr arg.bu && !policy.haAcceptMobRtr then basMrOpNotPermitted
  else
    match policy.policyBindAcl arg.dst with
    | none => policy.defBindPolicy
    | some acl =>
        if acl.bindPolicy < basUnspecified && isMobRtr arg.bu then
          let opts := (mhOptParse dupBeyond arg.bu arg.len 12).get (by simp [arg.parsed])
          policyCheckMobNetPrefix acl arg.bu opts
        else acl.bindPolicy

/-! ## Binding -/

/-- `ha_extract_mnps`; `alloc` is whether there is memory for the prefix of an
option. -/
def haExtractMnps (bu : Buffer) (opts : MhOptions) (alloc : Nat → Bool) :
    Option (List PrefixListEntry) :=
  let ops := optsVisited bu opts ip6MhoptMobNetPrfx
  if ops.all alloc then some (ops.map (mobNetPrefix bu)) else none

/-- `ha_get_mnps`: the prefixes of the configuration. -/
def haGetMnps (policy : Policy) (hoa : In6Addr) (alloc : Bool) : List PrefixListEntry :=
  match policy.policyBindAcl hoa with
  | none => []
  | some acl => if alloc then acl.mobNetPrefixes else []

/-- `ha_recv_bu_worker` from the policy to the prefixes of the binding. -/
def haBindMnps (policy : Policy) (arg : HaRecvBuArgs dupBeyond) (lft : Timespec)
    (alloc : Nat → Bool) (configured : Bool) : Except Int (List PrefixListEntry) :=
  let status := defaultDiscardBinding policy arg
  if status ≥ basUnspecified then .error status
  else if isMobRtr arg.bu && tsisset lft then
    match mhOpt arg.mhOpts ip6MhoptMobNetPrfx with
    | some _ =>
        match haExtractMnps arg.bu arg.mhOpts alloc with
        | none => .error basInvalPrfx
        | some mnps => .ok mnps
    | none =>
        match haGetMnps policy arg.dst configured with
        | [] => .error basFwdingFailed
        | mnp :: mnps => .ok (mnp :: mnps)
  else .ok []

theorem optNextLoop_some {mh : Buffer} {type : UInt8} {last fuel i next : Nat}
    (found : optNextLoop mh type last fuel i = some next) :
    i < next ∧ next ≤ last ∧ mh next = type := by
  induction fuel generalizing i with
  | zero => cases found
  | succ fuel ih =>
      simp only [optNextLoop] at found
      set after := if mh i = 0 then i + 1 else i + ((mh (i + 1)).toNat + 2) with isAfter
      have further : i < after := by
        rw [isAfter]
        split <;> omega
      split at found
      · split at found
        · rename_i here
          rw [← Option.some.inj found]
          exact ⟨further, here⟩
        · obtain ⟨later, within, isType⟩ := ih found
          exact ⟨further.trans later, within, isType⟩
      · cases found

theorem optsFrom_enough (mh : Buffer) (mhOpts : MhOptions) {fuel fuel' opt : Nat}
    (enough : mhOpts.optsEnd (mh opt).toNat - opt ≤ fuel)
    (enough' : mhOpts.optsEnd (mh opt).toNat - opt ≤ fuel') :
    optsFrom mh mhOpts fuel opt = optsFrom mh mhOpts fuel' opt := by
  induction fuel generalizing fuel' opt with
  | zero =>
      cases fuel' with
      | zero => rfl
      | succ fuel' =>
          have last : mhOptNext mh mhOpts opt = none := by
            simp only [mhOptNext, Nat.le_zero.mp enough]
            rfl
          simp only [optsFrom, last]
  | succ fuel ih =>
      cases fuel' with
      | zero =>
          have last : mhOptNext mh mhOpts opt = none := by
            simp only [mhOptNext, Nat.le_zero.mp enough']
            rfl
          simp only [optsFrom, last]
      | succ fuel' =>
          simp only [optsFrom]
          cases found : mhOptNext mh mhOpts opt with
          | none => rfl
          | some next =>
              obtain ⟨further, within, sameType⟩ := optNextLoop_some found
              have same : optsFrom mh mhOpts fuel next = optsFrom mh mhOpts fuel' next :=
                ih (by rw [sameType]; omega) (by rw [sameType]; omega)
              simp only [same]

def addrBit (a : In6Addr) (k : Nat) : Bool := (a.get (k / 8)).toNat.testBit (7 - k % 8)

def SameBits (p q : In6Addr) (plen : Nat) : Prop := ∀ k < plen, addrBit p k = addrBit q k

theorem testBit_byte_mask {b j : Nat} (small : b < 8) (inByte : j < 8) :
    (0xff00 >>> b).testBit j = decide (8 - b ≤ j) := by
  have all : ∀ b < 8, ∀ j < 8, (0xff00 >>> b).testBit j = decide (8 - b ≤ j) := by decide
  exact all b small j inByte

theorem byte_bits_eq_iff (x y : UInt8) :
    x = y ↔ ∀ t < 8, x.toNat.testBit (7 - t) = y.toNat.testBit (7 - t) := by
  constructor
  · intro same t _
    rw [same]
  · intro bits
    apply UInt8.toNat_inj.mp
    apply Nat.eq_of_testBit_eq
    intro j
    by_cases inByte : j < 8
    · have := bits (7 - j) (by omega)
      rwa [show 7 - (7 - j) = j by omega] at this
    · have wide : 2 ^ 8 ≤ 2 ^ j := Nat.pow_le_pow_right (by decide) (by omega)
      rw [Nat.testBit_lt_two_pow (lt_of_lt_of_le x.toNat_lt wide),
        Nat.testBit_lt_two_pow (lt_of_lt_of_le y.toNat_lt wide)]

theorem masked_bits_eq_iff (x y : UInt8) {b : Nat} (small : b < 8) :
    (x.toNat ^^^ y.toNat) &&& (0xff00 >>> b) = 0 ↔
      ∀ t < b, x.toNat.testBit (7 - t) = y.toNat.testBit (7 - t) := by
  have bitwise : ∀ j, ((x.toNat ^^^ y.toNat) &&& (0xff00 >>> b)).testBit j =
      ((x.toNat.testBit j ^^ y.toNat.testBit j) && (0xff00 >>> b).testBit j) := by
    intro j
    rw [Nat.testBit_and, Nat.testBit_xor]
  constructor
  · intro zero t inside
    have clear := bitwise (7 - t)
    rw [zero, Nat.zero_testBit, testBit_byte_mask small (by omega)] at clear
    simpa [show 8 - b ≤ 7 - t by omega] using clear.symm
  · intro bits
    apply Nat.eq_of_testBit_eq
    intro j
    rw [bitwise, Nat.zero_testBit]
    by_cases inByte : j < 8
    · rw [testBit_byte_mask small inByte]
      by_cases masked : 8 - b ≤ j
      · have same := bits (7 - j) (by omega)
        rw [show 7 - (7 - j) = j by omega] at same
        simp [same]
      · simp [masked]
    · have wide : 2 ^ 8 ≤ 2 ^ j := Nat.pow_le_pow_right (by decide) (by omega)
      rw [Nat.testBit_lt_two_pow (lt_of_lt_of_le x.toNat_lt wide),
        Nat.testBit_lt_two_pow (lt_of_lt_of_le y.toNat_lt wide)]
      rfl

theorem take_eq_iff (p q : In6Addr) {o : Nat} (inside : o ≤ 16) :
    p.bytes.take o = q.bytes.take o ↔ ∀ j < o, p.get j = q.get j := by
  constructor
  · intro same j before
    have here := congrArg (fun l : List UInt8 => l.getD j 0) same
    simpa [Octets.get, List.getD_eq_getElem?_getD, List.getElem?_take, before] using here
  · intro bytes
    apply List.ext_getElem
    · simp [p.size, q.size]
    · intro j first second
      have before : j < o := by
        rw [List.length_take] at first
        omega
      have here := bytes j before
      have inP : j < p.bytes.length := by rw [p.size]; omega
      have inQ : j < q.bytes.length := by rw [q.size]; omega
      simpa [Octets.get, List.getD_eq_getElem?_getD, List.getElem?_eq_getElem inP,
        List.getElem?_eq_getElem inQ] using here

theorem ipv6PfxCmp_eq_false (p q : In6Addr) {plen : Nat} (bounded : plen ≤ 128) :
    ipv6PfxCmp p q plen = false ↔ SameBits p q plen := by
  have bytes : p.bytes.take (plen / 8) = q.bytes.take (plen / 8) ↔
      ∀ k < 8 * (plen / 8), addrBit p k = addrBit q k := by
    rw [take_eq_iff p q (by omega)]
    constructor
    · intro same k before
      simp only [addrBit, same (k / 8) (by omega)]
    · intro bits j before
      apply (byte_bits_eq_iff _ _).mpr
      intro t inByte
      have here := bits (8 * j + t) (by omega)
      simpa only [addrBit, show (8 * j + t) / 8 = j by omega, show (8 * j + t) % 8 = t by omega]
        using here
  have rest : ((p.get (plen / 8)).toNat ^^^ (q.get (plen / 8)).toNat) &&&
      (0xff00 >>> (plen % 8)) = 0 ↔
      ∀ k, 8 * (plen / 8) ≤ k → k < plen → addrBit p k = addrBit q k := by
    rw [masked_bits_eq_iff _ _ (by omega)]
    constructor
    · intro bits k start before
      have here := bits (k % 8) (by omega)
      rwa [show plen / 8 = k / 8 by omega] at here
    · intro bits t inside
      have here := bits (8 * (plen / 8) + t) (by omega) (by omega)
      simpa only [addrBit, show (8 * (plen / 8) + t) / 8 = plen / 8 by omega,
        show (8 * (plen / 8) + t) % 8 = t by omega] using here
  have split : SameBits p q plen ↔ (∀ k < 8 * (plen / 8), addrBit p k = addrBit q k) ∧
      ∀ k, 8 * (plen / 8) ≤ k → k < plen → addrBit p k = addrBit q k := by
    constructor
    · intro same
      exact ⟨fun k before => same k (by omega), fun k _ before => same k before⟩
    · intro both k before
      by_cases whole : k < 8 * (plen / 8)
      · exact both.1 k whole
      · exact both.2 k (by omega) before
  rw [split, ← bytes, ← rest]
  simp only [ipv6PfxCmp]
  split
  · rename_i differ
    simp [differ]
  · rename_i same
    simp only [ne_eq, Decidable.not_not] at same
    split
    · rename_i aligned
      have clear := (masked_bits_eq_iff (p.get (plen / 8)) (q.get (plen / 8)) (b := 0)
        (by decide)).mpr fun t inside => absurd inside (Nat.not_lt_zero t)
      rw [aligned]
      exact ⟨fun _ => ⟨same, clear⟩, fun _ => rfl⟩
    · simp [same]

/-! ## What the policy lets through -/

theorem prefixListGetFrom_isSome (addr : In6Addr) (plen : Nat) (p1 : Option PrefixListEntry)
    (pl : List PrefixListEntry) :
    (prefixListGetFrom addr plen p1 pl).isSome = true ↔ p1.isSome = true ∨
      ∃ p2 ∈ pl, ipv6PfxCmp p2.plePrefix addr p2.plePlen.toNat = false ∧
        (plen = 0 ∨ p2.plePlen.toNat = plen) := by
  induction pl generalizing p1 with
  | nil => simp [prefixListGetFrom]
  | cons p2 rest ih =>
      simp only [prefixListGetFrom, List.exists_mem_cons_iff]
      split
      · rename_i differs
        rw [ih]
        simp [differs]
      · rename_i same
        simp only [Bool.not_eq_true] at same
        split
        · rename_i long
          have notZero : plen ≠ 0 := by omega
          split
          · rename_i isLength
            exact iff_of_true rfl (Or.inr (Or.inl ⟨same, Or.inr isLength⟩))
          · rename_i otherLength
            rw [ih]
            simp [notZero, otherLength]
        · rename_i short
          have isZero : plen = 0 := by omega
          cases p1 with
          | none =>
              rw [ih]
              simp [same, isZero]
          | some p1 =>
              simp only
              split
              · rw [ih]
                simp
              · rw [ih]
                simp

/-- The configured prefix covers the one of the option; one of length zero has no
length to agree with. -/
def Covers (q p : PrefixListEntry) : Prop :=
  (p.plePlen = 0 ∨ q.plePlen = p.plePlen) ∧ SameBits q.plePrefix p.plePrefix q.plePlen.toNat

def PolicyBindAclEntry.Configured (acl : PolicyBindAclEntry) (p : PrefixListEntry) : Prop :=
  ∃ q ∈ acl.mobNetPrefixes, q.plePlen = p.plePlen ∧
    SameBits q.plePrefix p.plePrefix p.plePlen.toNat

theorem prefixListGet_isSome (acl : PolicyBindAclEntry) (p : PrefixListEntry) :
    (prefixListGet acl.mobNetPrefixes p.plePrefix p.plePlen.toNat).isSome = true ↔
      ∃ q ∈ acl.mobNetPrefixes, Covers q p := by
  have zero : p.plePlen.toNat = 0 ↔ p.plePlen = 0 := UInt8.toNat_inj (b := 0)
  rw [prefixListGet, prefixListGetFrom_isSome, zero]
  constructor
  · intro found
    rcases found with none_before | ⟨q, member, same, lengths⟩
    · cases none_before
    · have bits := (ipv6PfxCmp_eq_false q.plePrefix p.plePrefix (acl.bounded q member)).mp same
      exact ⟨q, member, lengths.imp_right UInt8.toNat_inj.mp, bits⟩
  · intro covered
    obtain ⟨q, member, lengths, bits⟩ := covered
    have same := (ipv6PfxCmp_eq_false q.plePrefix p.plePrefix (acl.bounded q member)).mpr bits
    exact Or.inr ⟨q, member, same, lengths.imp_right (congrArg UInt8.toNat)⟩

def HaRecvBuArgs.mobNetPrefixes (arg : HaRecvBuArgs dupBeyond) : List PrefixListEntry :=
  (optsVisited arg.bu arg.mhOpts ip6MhoptMobNetPrfx).map (mobNetPrefix arg.bu)

theorem haExtractMnps_eq_some {arg : HaRecvBuArgs dupBeyond} {alloc : Nat → Bool}
    {mnps : List PrefixListEntry}
    (extracted : haExtractMnps arg.bu arg.mhOpts alloc = some mnps) :
    mnps = arg.mobNetPrefixes := by
  simp only [haExtractMnps] at extracted
  split at extracted
  · exact (Option.some.inj extracted).symm
  · cases extracted

theorem policyCheckMobNetPrefix_accepts (acl : PolicyBindAclEntry)
    (arg : HaRecvBuArgs dupBeyond) :
    policyCheckMobNetPrefix acl arg.bu arg.mhOpts < basUnspecified ↔
      ∀ p ∈ arg.mobNetPrefixes, ∃ q ∈ acl.mobNetPrefixes, Covers q p := by
  have all : ((optsVisited arg.bu arg.mhOpts ip6MhoptMobNetPrfx).all fun op =>
      (prefixListGet acl.mobNetPrefixes (mobNetPrefix arg.bu op).plePrefix
        (mobNetPrefix arg.bu op).plePlen.toNat).isSome) = true ↔
      ∀ p ∈ arg.mobNetPrefixes, ∃ q ∈ acl.mobNetPrefixes, Covers q p := by
    simp only [HaRecvBuArgs.mobNetPrefixes, List.all_eq_true, List.forall_mem_map,
      prefixListGet_isSome]
  rw [← all]
  simp only [policyCheckMobNetPrefix]
  split
  · rename_i known
    exact ⟨fun _ => known, fun _ => by decide⟩
  · rename_i unknown
    exact ⟨fun accepted => absurd accepted (by decide), fun known => absurd known unknown⟩

theorem defaultDiscardBinding_accepts {policy : Policy} {arg : HaRecvBuArgs dupBeyond}
    {acl : PolicyBindAclEntry} (found : policy.policyBindAcl arg.dst = some acl)
    (mobRtr : isMobRtr arg.bu = true) :
    defaultDiscardBinding policy arg < basUnspecified ↔
      policy.haAcceptMobRtr = true ∧ acl.bindPolicy < basUnspecified ∧
        ∀ p ∈ arg.mobNetPrefixes, ∃ q ∈ acl.mobNetPrefixes, Covers q p := by
  simp only [defaultDiscardBinding, mobRtr, found, Bool.true_and, Bool.not_eq_true', arg.parsed,
    Option.get_some, Bool.and_true, decide_eq_true_eq]
  cases accepts : policy.haAcceptMobRtr with
  | false => simp [basMrOpNotPermitted, basUnspecified]
  | true =>
      simp only [Bool.true_eq_false, if_false, true_and]
      split
      · rename_i binds
        rw [policyCheckMobNetPrefix_accepts]
        exact ⟨fun covered => ⟨binds, covered⟩, fun both => both.2⟩
      · rename_i refuses
        exact ⟨fun binds => absurd binds refuses, fun both => absurd both.1 refuses⟩

theorem configured_of_covered {acl : PolicyBindAclEntry} {p : PrefixListEntry}
    (covered : ∃ q ∈ acl.mobNetPrefixes, Covers q p)
    (zero : p.plePlen = 0 → ∃ q ∈ acl.mobNetPrefixes, q.plePlen = 0) : acl.Configured p := by
  by_cases isZero : p.plePlen = 0
  · obtain ⟨q, member, length⟩ := zero isZero
    refine ⟨q, member, length.trans isZero.symm, ?_⟩
    intro k inside
    rw [isZero] at inside
    exact absurd inside (Nat.not_lt_zero k)
  · obtain ⟨q, member, lengths, bits⟩ := covered
    have same := lengths.resolve_left isZero
    exact ⟨q, member, same, same ▸ bits⟩

theorem extracted_configured {policy : Policy} {arg : HaRecvBuArgs dupBeyond}
    {acl : PolicyBindAclEntry} (found : policy.policyBindAcl arg.dst = some acl)
    (mobRtr : isMobRtr arg.bu = true) (through : defaultDiscardBinding policy arg < basUnspecified)
    (zero : ∀ p ∈ arg.mobNetPrefixes, p.plePlen = 0 → ∃ q ∈ acl.mobNetPrefixes, q.plePlen = 0)
    {alloc : Nat → Bool} {mnps : List PrefixListEntry}
    (extracted : haExtractMnps arg.bu arg.mhOpts alloc = some mnps) :
    ∀ p ∈ mnps, acl.Configured p := by
  intro p member
  obtain ⟨-, -, covered⟩ := (defaultDiscardBinding_accepts found mobRtr).mp through
  rw [haExtractMnps_eq_some extracted] at member
  exact configured_of_covered (covered p member) (zero p member)

/-- Where the update is accepted, the prefixes of its binding are those of the ACL
entry exactly if the entry has one of length zero for every one of length zero. -/
theorem extracted_configured_iff (policy : Policy) (arg : HaRecvBuArgs dupBeyond)
    (acl : PolicyBindAclEntry) (found : policy.policyBindAcl arg.dst = some acl)
    (mobRtr : isMobRtr arg.bu = true) :
    (∀ (alloc : Nat → Bool) (mnps : List PrefixListEntry),
      defaultDiscardBinding policy arg < basUnspecified →
        haExtractMnps arg.bu arg.mhOpts alloc = some mnps → ∀ p ∈ mnps, acl.Configured p) ↔
      (policy.haAcceptMobRtr = true → acl.bindPolicy < basUnspecified →
        (∀ p ∈ arg.mobNetPrefixes, ∃ q ∈ acl.mobNetPrefixes, Covers q p) →
          ∀ p ∈ arg.mobNetPrefixes, p.plePlen = 0 → ∃ q ∈ acl.mobNetPrefixes, q.plePlen = 0) := by
  constructor
  · intro configured accepts binds covered p member isZero
    have through := (defaultDiscardBinding_accepts found mobRtr).mpr ⟨accepts, binds, covered⟩
    have extracted : haExtractMnps arg.bu arg.mhOpts (fun _ => true) =
        some arg.mobNetPrefixes := by
      simp [haExtractMnps, HaRecvBuArgs.mobNetPrefixes]
    obtain ⟨q, isThere, length, -⟩ := configured _ _ through extracted p member
    exact ⟨q, isThere, length.trans isZero⟩
  · intro zero alloc mnps through extracted
    obtain ⟨accepts, binds, covered⟩ := (defaultDiscardBinding_accepts found mobRtr).mp through
    exact extracted_configured found mobRtr through (zero accepts binds covered) extracted

def documentation : In6Addr := ⟨[0x20, 1, 0x0d, 0xb8] ++ List.replicate 12 0, rfl⟩

/-- A registration of a mobile router with a prefix of this length and, after a
padding byte, with 2001:db8::/32. -/
def routerBu (plen : UInt8) : Buffer := fun i =>
  ([59, 6, 5, 0, 0, 0, 0, 1, 0xc4, 0, 0, 100, 6, 18, 0, plen] ++ documentation.bytes ++
    [0, 6, 18, 0, 32] ++ documentation.bytes).getD i 0

def routerArg (plen : UInt8) : HaRecvBuArgs (fun _ => false) where
  bu := routerBu plen
  len := 53
  mhOpts := (mhOptParse (fun _ => false) (routerBu plen) 53 12).get rfl
  dst := in6addrLoopback
  parsed := (Option.some_get _).symm

def routerAcl : PolicyBindAclEntry where
  bindPolicy := 0
  mobNetPrefixes := [⟨32, documentation⟩]
  bounded := by decide

def routerPolicy : Policy where
  haAcceptMobRtr := true
  defBindPolicy := 129
  policyBindAcl := fun hoa => if hoa = in6addrLoopback then some routerAcl else none

theorem extracted_configured_iff_own :
    (routerArg 32).mobNetPrefixes.length = 2 ∧
      defaultDiscardBinding routerPolicy (routerArg 32) < basUnspecified ∧
      ∀ (alloc : Nat → Bool) (mnps : List PrefixListEntry),
        defaultDiscardBinding routerPolicy (routerArg 32) < basUnspecified →
          haExtractMnps (routerArg 32).bu (routerArg 32).mhOpts alloc = some mnps →
            ∀ p ∈ mnps, routerAcl.Configured p := by
  refine ⟨by decide +kernel, by decide +kernel, ?_⟩
  apply (extracted_configured_iff routerPolicy (routerArg 32) routerAcl rfl rfl).mpr
  intro _ _ _ p member isZero
  have notZero : ∀ p ∈ (routerArg 32).mobNetPrefixes, p.plePlen ≠ 0 := by decide +kernel
  exact absurd isZero (notZero p member)

/-- A router that lists a prefix of length zero is bound for the default route. -/
theorem default_route_bound :
    ¬ ∀ (policy : Policy) (arg : HaRecvBuArgs (fun _ => false)) (acl : PolicyBindAclEntry)
      (alloc : Nat → Bool) (mnps : List PrefixListEntry),
      policy.policyBindAcl arg.dst = some acl → isMobRtr arg.bu = true →
        defaultDiscardBinding policy arg < basUnspecified →
          haExtractMnps arg.bu arg.mhOpts alloc = some mnps →
            ∀ p ∈ mnps, acl.Configured p := by
  intro claimed
  have configured := claimed routerPolicy (routerArg 0) routerAcl (fun _ => true) _ rfl rfl
    (by decide +kernel) rfl ⟨0, documentation⟩ (by decide +kernel)
  obtain ⟨q, member, length, -⟩ := configured
  have notZero : ∀ q ∈ routerAcl.mobNetPrefixes, q.plePlen ≠ 0 := by decide
  exact notZero q member length

theorem haBindMnps_configured {policy : Policy} {arg : HaRecvBuArgs dupBeyond}
    {acl : PolicyBindAclEntry} (found : policy.policyBindAcl arg.dst = some acl)
    (zero : ∀ p ∈ arg.mobNetPrefixes, p.plePlen = 0 → ∃ q ∈ acl.mobNetPrefixes, q.plePlen = 0)
    {lft : Timespec} {alloc : Nat → Bool} {configured : Bool} {mnps : List PrefixListEntry}
    (bound : haBindMnps policy arg lft alloc configured = .ok mnps) :
    ∀ p ∈ mnps, acl.Configured p := by
  intro p member
  simp only [haBindMnps] at bound
  split at bound
  · cases bound
  · rename_i through
    split at bound
    · rename_i registers
      have mobRtr : isMobRtr arg.bu = true := (Bool.and_eq_true_iff.mp registers).1
      split at bound
      · split at bound
        · cases bound
        · rename_i extracted
          cases bound
          exact extracted_configured found mobRtr (by omega) zero extracted p member
      · simp only [haGetMnps, found] at bound
        have isConfigured : p ∈ acl.mobNetPrefixes := by
          cases configured with
          | false => cases bound
          | true =>
              simp only [if_true] at bound
              split at bound
              · cases bound
              · rename_i listed
                cases bound
                rw [listed]
                exact member
        exact ⟨p, isConfigured, rfl, fun k _ => rfl⟩
    · cases bound
      cases member

theorem optLoop_congr {mh copy : Buffer} {len : Nat} (copied : ∀ i < len, copy i = mh i)
    (fuel left i : Nat) (bauth : Bool) (mhOpts : MhOptions) (within : left = 0 ∨ i + left ≤ len) :
    optLoop dupBeyond copy fuel left i bauth mhOpts =
      optLoop dupBeyond mh fuel left i bauth mhOpts := by
  induction fuel generalizing left i bauth mhOpts with
  | zero => cases left <;> rfl
  | succ fuel ih =>
      cases left with
      | zero => rfl
      | succ left =>
          have here : copy i = mh i := copied i (by omega)
          simp only [optLoop, here]
          split
          · rfl
          · split
            · exact ih _ _ _ _ (by omega)
            · by_cases short : left + 1 < 2
              · simp only [short, true_or, if_true]
              · have next : copy (i + 1) = mh (i + 1) := copied (i + 1) (by omega)
                simp only [next]
                split
                · rfl
                · split
                  · exact ih _ _ _ _ (by omega)
                  · split
                    · rfl
                    · exact ih _ _ _ _ (by omega)

/-- The worker of `ha_recv_home_bu` gets a copy of the message that was parsed: its options
are those of the copy. -/
theorem parsed_copy {mh copy : Buffer} {len : Nat} (copied : ∀ i < len, copy i = mh i) :
    mhOptParse dupBeyond copy len 12 = mhOptParse dupBeyond mh len 12 :=
  optLoop_congr copied _ _ _ _ _ (by omega)

end OaiPmip.Ha
