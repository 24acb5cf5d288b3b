import Mathlib.Data.List.Perm.Subperm
import OaiPmip.PrefixBits

/-!
# Comparing prefix lists: prefix.c and ha.c

`prefix_list_cmp` compares the lengths of two lists and looks for every entry of the
first one in the second one.  `home_tnl_chg` leaves the routes and policies of a tunnel
alone if the lists are the same.
-/

set_option autoImplicit false

namespace OaiPmip.PrefixLists

open OaiPmip.Ha hiding ipv6PfxCmp
open OaiPmip.PrefixBits

/-- An entry in memory.  The length comes from an option of an update, unchecked: with more
than 128 bits the comparison goes on behind the entry, where bit `k` is `behind k`. -/
structure StoredPrefix where
  entry : PrefixListEntry
  behind : Nat → Bool

/-- `ipv6_pfx_cmp` on two entries. -/
def differs (p1 p2 : StoredPrefix) (plen : Nat) : Bool :=
  match ipv6PfxCmp p1.entry.plePrefix p2.entry.plePrefix plen with
  | some res => res ≠ 0
  | none =>
      p1.entry.plePrefix ≠ p2.entry.plePrefix ||
        (List.range (plen - 128)).any fun k => p1.behind k ≠ p2.behind k

/-- The inner loop of `prefix_list_cmp`: `match`. -/
def matchIn (p1 : StoredPrefix) : List StoredPrefix → Bool
  | [] => false
  | p2 :: rest =>
      if p1.entry.plePlen ≠ p2.entry.plePlen || differs p1 p2 p1.entry.plePlen.toNat then
        matchIn p1 rest
      else true

def matchAll (pl2 : List StoredPrefix) : List StoredPrefix → Int
  | [] => 1
  | p1 :: rest => if matchIn p1 pl2 then matchAll pl2 rest else 0

def prefixListCmp (pl1 pl2 : List StoredPrefix) : Int :=
  if pl1.length ≠ pl2.length then 0 else matchAll pl2 pl1

/-- The calls of `home_tnl_chg`. -/
inductive HomeTnlCall where
  | haIpsecMnpPolDel
  | haIpsecMnpPolAdd
  | nemoHaDelMnpRoutes
  | nemoHaAddMnpRoutes
  | haIpsecTrnsUpdate
  | haIpsecTnlUpdate
  | homeTnlDel
  | homeTnlAdd
  deriving DecidableEq

/-- What the configuration, the binding and the functions that are called give; a failed
`home_tnl_add` leaves its own status. -/
structure HomeTnlEnv where
  useMnHaIpsec : Bool
  nemoExplicit : Bool
  sameCoa : Bool
  addMnpRoutes : Int
  trnsUpdate : Int
  tnlUpdate : Int
  tnlAdd : Int
  tnlAddStatus : Int

structure HomeTnlResult where
  calls : List HomeTnlCall
  baStatus : Int
  ret : Int

def migrate (env : HomeTnlEnv) (calls : List HomeTnlCall) (baStatus : Int) : HomeTnlResult :=
  if env.useMnHaIpsec && !env.sameCoa then
    if env.trnsUpdate < 0 then ⟨calls ++ [.haIpsecTrnsUpdate], baStatus, -1⟩
    else
      let calls := calls ++ [.haIpsecTrnsUpdate, .haIpsecTnlUpdate]
      if env.tnlUpdate < 0 then ⟨calls, baStatus, -1⟩ else ⟨calls, baStatus, 0⟩
  else ⟨calls, baStatus, 0⟩

def homeTnlChg (env : HomeTnlEnv) (oldIf newIf : Nat) (bceMnps mnps : List StoredPrefix)
    (baStatus : Int) : HomeTnlResult :=
  if oldIf = newIf then
    if prefixListCmp bceMnps mnps = 0 then
      let policies := if env.useMnHaIpsec then [.haIpsecMnpPolDel, .haIpsecMnpPolAdd] else []
      let calls := policies ++ [.nemoHaDelMnpRoutes, .nemoHaAddMnpRoutes]
      if env.addMnpRoutes < 0 then
        ⟨calls, if env.nemoExplicit then basInvalPrfx else basFwdingFailed, -1⟩
      else migrate env calls baStatus
    else migrate env [] baStatus
  else
    let calls := [.homeTnlDel, .homeTnlAdd]
    if env.tnlAdd < 0 then ⟨calls, env.tnlAddStatus, -1⟩ else ⟨calls, baStatus, 0⟩

/-! ## Prefixes as keys -/

def prefixKey (p : PrefixListEntry) : UInt8 × List Bool :=
  (p.plePlen, (List.range (min p.plePlen.toNat 128)).map (addrBit p.plePrefix))

def keys (pl : List PrefixListEntry) : List (UInt8 × List Bool) := pl.map prefixKey

def SamePrefixes (a b : List PrefixListEntry) : Prop := (keys a).Perm (keys b)

instance (a b : List PrefixListEntry) : Decidable (SamePrefixes a b) :=
  inferInstanceAs (Decidable (List.Perm _ _))

/-- As many entries, all of the first list in the second one, but one of them repeated more
often in the first. -/
def Overcounts (a b : List PrefixListEntry) : Prop :=
  a.length = b.length ∧ (∀ k ∈ keys a, k ∈ keys b) ∧
    ∃ k ∈ keys a, (keys b).count k < (keys a).count k

instance (a b : List PrefixListEntry) : Decidable (Overcounts a b) :=
  inferInstanceAs (Decidable (_ ∧ _ ∧ _))

theorem map_bits_eq_iff (x y : In6Addr) (n : Nat) :
    (List.range n).map (addrBit x) = (List.range n).map (addrBit y) ↔ SameBits x y n := by
  rw [List.map_inj_left]
  exact forall_congr' fun k => by rw [List.mem_range]

theorem prefixKey_eq_iff (p q : PrefixListEntry) :
    prefixKey p = prefixKey q ↔
      p.plePlen = q.plePlen ∧ SameBits p.plePrefix q.plePrefix (min p.plePlen.toNat 128) := by
  rw [prefixKey, prefixKey, Prod.mk.injEq]
  constructor
  · rintro ⟨same, bits⟩
    rw [same] at bits ⊢
    exact ⟨rfl, (map_bits_eq_iff _ _ _).mp bits⟩
  · rintro ⟨same, bits⟩
    rw [same] at bits ⊢
    exact ⟨rfl, (map_bits_eq_iff _ _ _).mpr bits⟩

theorem sameBits_all {x y : In6Addr} (same : SameBits x y 128) : x = y := by
  have equal := (ipv6PfxCmp_eq_false x y (le_refl 128)).mpr same
  have whole : x.bytes.take 16 = y.bytes.take 16 := by
    by_contra differ
    simp [Ha.ipv6PfxCmp, differ] at equal
  apply Octets.ext_bytes
  rwa [List.take_of_length_le (by rw [x.size]), List.take_of_length_le (by rw [y.size])] at whole

theorem differs_iff (p q : StoredPrefix) :
    differs p q p.entry.plePlen.toNat = false ↔
      SameBits p.entry.plePrefix q.entry.plePrefix (min p.entry.plePlen.toNat 128) ∧
        ∀ k < p.entry.plePlen.toNat - 128, p.behind k = q.behind k := by
  by_cases bounded : p.entry.plePlen.toNat ≤ 128
  · obtain ⟨res, compared, zero⟩ :=
      ipv6PfxCmp_bits p.entry.plePrefix q.entry.plePrefix bounded
    rw [Nat.min_eq_left bounded, Nat.sub_eq_zero_of_le bounded, ← zero]
    simp [differs, compared]
  · rw [Nat.min_eq_right (by omega)]
    have equal : SameBits p.entry.plePrefix q.entry.plePrefix 128 ↔
        p.entry.plePrefix = q.entry.plePrefix :=
      ⟨sameBits_all, fun same => by rw [same]; exact fun _ _ => rfl⟩
    rw [equal]
    rcases ipv6PfxCmp_long p.entry.plePrefix q.entry.plePrefix (by omega)
        p.entry.plePlen.toNat_lt with outside | ⟨res, compared, notZero, differ⟩
    · simp [differs, outside]
    · simp [differs, compared, notZero, differ]

def Matches (p q : StoredPrefix) : Prop :=
  prefixKey p.entry = prefixKey q.entry ∧
    ∀ k < p.entry.plePlen.toNat - 128, p.behind k = q.behind k

theorem matchIn_iff (p1 : StoredPrefix) (pl2 : List StoredPrefix) :
    matchIn p1 pl2 = true ↔ ∃ p2 ∈ pl2, Matches p1 p2 := by
  induction pl2 with
  | nil => simp [matchIn]
  | cons p2 rest ih =>
      have here : Matches p1 p2 ↔ p1.entry.plePlen = p2.entry.plePlen ∧
          differs p1 p2 p1.entry.plePlen.toNat = false := by
        rw [Matches, prefixKey_eq_iff, differs_iff, and_assoc]
      rw [List.exists_mem_cons_iff, here, matchIn, ← ih]
      by_cases same : p1.entry.plePlen = p2.entry.plePlen
      · cases compared : differs p1 p2 p1.entry.plePlen.toNat <;> simp [same]
      · simp [same]

theorem matchAll_iff (pl1 pl2 : List StoredPrefix) :
    matchAll pl2 pl1 = 1 ↔ ∀ p1 ∈ pl1, ∃ p2 ∈ pl2, Matches p1 p2 := by
  induction pl1 with
  | nil => simp [matchAll]
  | cons p1 rest ih =>
      rw [List.forall_mem_cons, matchAll, ← matchIn_iff]
      cases matchIn p1 pl2 with
      | true => simp [ih]
      | false => simp

theorem matchAll_cases (pl1 pl2 : List StoredPrefix) :
    matchAll pl2 pl1 = 1 ∨ matchAll pl2 pl1 = 0 := by
  induction pl1 with
  | nil => exact .inl rfl
  | cons p1 rest ih =>
      rw [matchAll]
      split
      · exact ih
      · exact .inr rfl

theorem prefixListCmp_cases (pl1 pl2 : List StoredPrefix) :
    prefixListCmp pl1 pl2 = 1 ∨ prefixListCmp pl1 pl2 = 0 := by
  rw [prefixListCmp]
  split
  · exact .inr rfl
  · exact matchAll_cases pl1 pl2

theorem prefixListCmp_iff (pl1 pl2 : List StoredPrefix) :
    prefixListCmp pl1 pl2 = 1 ↔
      pl1.length = pl2.length ∧ ∀ p1 ∈ pl1, ∃ p2 ∈ pl2, Matches p1 p2 := by
  rw [← matchAll_iff, prefixListCmp]
  split
  · rename_i lengths
    simp [lengths]
  · rename_i lengths
    simp only [ne_eq, not_not] at lengths
    simp [lengths]

def StoredAs (pl : List StoredPrefix) (entries : List PrefixListEntry) : Prop :=
  pl.map StoredPrefix.entry = entries

def storeAll (behind : Nat → Bool) (entries : List PrefixListEntry) : List StoredPrefix :=
  entries.map fun p => ⟨p, behind⟩

variable {a b : List PrefixListEntry}

theorem storedAs_storeAll (behind : Nat → Bool) (entries : List PrefixListEntry) :
    StoredAs (storeAll behind entries) entries := by
  simp [StoredAs, storeAll, Function.comp_def]

theorem StoredAs.keys {pl : List StoredPrefix} (stored : StoredAs pl a) :
    keys a = pl.map fun p => prefixKey p.entry := by
  rw [← show pl.map StoredPrefix.entry = a from stored, PrefixLists.keys, List.map_map]
  rfl

theorem StoredAs.length {pl : List StoredPrefix} (stored : StoredAs pl a) :
    pl.length = a.length := by
  rw [← show pl.map StoredPrefix.entry = a from stored, List.length_map]

theorem contained_of_cmp {pl1 pl2 : List StoredPrefix} (first : StoredAs pl1 a)
    (second : StoredAs pl2 b) (same : prefixListCmp pl1 pl2 = 1) :
    a.length = b.length ∧ ∀ k ∈ keys a, k ∈ keys b := by
  obtain ⟨lengths, found⟩ := (prefixListCmp_iff pl1 pl2).mp same
  refine ⟨by rw [← first.length, ← second.length, lengths], ?_⟩
  intro k member
  rw [first.keys] at member
  obtain ⟨p, inFirst, rfl⟩ := List.mem_map.mp member
  obtain ⟨q, inSecond, equal, -⟩ := found p inFirst
  rw [second.keys, equal]
  exact List.mem_map_of_mem inSecond

theorem cmp_storeAll (behind : Nat → Bool) (lengths : a.length = b.length)
    (contained : ∀ k ∈ keys a, k ∈ keys b) :
    prefixListCmp (storeAll behind a) (storeAll behind b) = 1 := by
  rw [prefixListCmp_iff]
  refine ⟨by rw [storeAll, storeAll, List.length_map, List.length_map, lengths], ?_⟩
  intro p1 member
  obtain ⟨p, inFirst, rfl⟩ := List.mem_map.mp member
  obtain ⟨q, inSecond, equal⟩ := List.mem_map.mp (contained _ (List.mem_map_of_mem inFirst))
  exact ⟨⟨q, behind⟩, List.mem_map_of_mem inSecond, equal.symm, fun _ _ => rfl⟩

/-- With no length above 128 the place of the lists does not matter. -/
theorem cmp_of_short {pl1 pl2 : List StoredPrefix} (first : StoredAs pl1 a)
    (second : StoredAs pl2 b) (short : ∀ p ∈ a, p.plePlen.toNat ≤ 128)
    (lengths : a.length = b.length) (contained : ∀ k ∈ keys a, k ∈ keys b) :
    prefixListCmp pl1 pl2 = 1 := by
  rw [prefixListCmp_iff]
  refine ⟨by rw [first.length, second.length, lengths], ?_⟩
  intro p member
  have inKeys : prefixKey p.entry ∈ keys a := by
    rw [first.keys]
    exact List.mem_map_of_mem member
  have inSecond := contained _ inKeys
  rw [second.keys] at inSecond
  obtain ⟨q, inList, equal⟩ := List.mem_map.mp inSecond
  refine ⟨q, inList, equal.symm, ?_⟩
  have bounded : p.entry.plePlen.toNat ≤ 128 := by
    apply short
    rw [← show pl1.map StoredPrefix.entry = a from first]
    exact List.mem_map_of_mem member
  intro k before
  omega

theorem perm_of_not_overcounts (exact' : ¬Overcounts a b) (lengths : a.length = b.length)
    (contained : ∀ k ∈ keys a, k ∈ keys b) : SamePrefixes a b := by
  have counts : ∀ k ∈ keys a, (keys a).count k ≤ (keys b).count k := by
    intro k member
    by_contra more
    exact exact' ⟨lengths, contained, k, member, not_le.mp more⟩
  apply (List.subperm_ext_iff.mpr counts).perm_of_length_le
  rw [keys, keys, List.length_map, List.length_map, lengths]

theorem SamePrefixes.contained (same : SamePrefixes a b) :
    a.length = b.length ∧ ∀ k ∈ keys a, k ∈ keys b := by
  refine ⟨?_, fun k member => List.Perm.mem_iff same |>.mp member⟩
  have lengths := List.Perm.length_eq same
  rwa [keys, keys, List.length_map, List.length_map] at lengths

theorem SamePrefixes.not_overcounts (same : SamePrefixes a b) : ¬Overcounts a b := by
  rintro ⟨-, -, k, -, more⟩
  rw [List.Perm.count_eq same k] at more
  exact lt_irrefl _ more

/-! ## What the callers rely on -/

def Reinstalled (env : HomeTnlEnv) (calls : List HomeTnlCall) : Prop :=
  .homeTnlAdd ∈ calls ∨
    .nemoHaDelMnpRoutes ∈ calls ∧ .nemoHaAddMnpRoutes ∈ calls ∧
      (env.useMnHaIpsec = true → .haIpsecMnpPolDel ∈ calls ∧ .haIpsecMnpPolAdd ∈ calls)

theorem migrate_calls (env : HomeTnlEnv) (calls : List HomeTnlCall) (baStatus : Int)
    {call : HomeTnlCall} (member : call ∈ calls) : call ∈ (migrate env calls baStatus).calls := by
  rw [migrate]
  split
  · split
    · exact List.mem_append_left _ member
    · simp only
      split <;> exact List.mem_append_left _ member
  · exact member

theorem homeTnlChg_reinstalled (env : HomeTnlEnv) (oldIf newIf : Nat)
    {bceMnps mnps : List StoredPrefix} (baStatus : Int)
    (changed : prefixListCmp bceMnps mnps = 0) :
    Reinstalled env (homeTnlChg env oldIf newIf bceMnps mnps baStatus).calls := by
  rw [homeTnlChg, if_pos changed]
  split
  · right
    set calls := (if env.useMnHaIpsec then [.haIpsecMnpPolDel, .haIpsecMnpPolAdd] else []) ++
      [HomeTnlCall.nemoHaDelMnpRoutes, .nemoHaAddMnpRoutes] with isCalls
    have all : ∀ call ∈ calls, call ∈ (if env.addMnpRoutes < 0 then
        (⟨calls, if env.nemoExplicit then basInvalPrfx else basFwdingFailed, -1⟩ : HomeTnlResult)
        else migrate env calls baStatus).calls := by
      intro call member
      split
      · exact member
      · exact migrate_calls env calls baStatus member
    simp only [← isCalls]
    refine ⟨all _ (by simp [isCalls]), all _ (by simp [isCalls]), ?_⟩
    intro ipsec
    exact ⟨all _ (by simp [isCalls, ipsec]), all _ (by simp [isCalls, ipsec])⟩
  · left
    simp only
    split <;> simp

/-- What `home_tnl_chg` relies on, wherever the two lists lie. -/
structure CmpExact (a b : List PrefixListEntry) : Prop where
  cmp : ∀ pl1 pl2, StoredAs pl1 a → StoredAs pl2 b →
    (prefixListCmp pl1 pl2 = 1 ↔ SamePrefixes a b)
  symmetric : ∀ pl1 pl2, StoredAs pl1 a → StoredAs pl2 b →
    prefixListCmp pl1 pl2 = prefixListCmp pl2 pl1
  reinstalled : ∀ pl1 pl2, StoredAs pl1 a → StoredAs pl2 b →
    ∀ env oldIf newIf baStatus, (∃ k, ¬(k ∈ keys a ↔ k ∈ keys b)) →
      Reinstalled env (homeTnlChg env oldIf newIf pl1 pl2 baStatus).calls

/-- The comparison is exact unless one list repeats a prefix of the other one more often, or
the prefixes are the same and one is longer than an address. -/
theorem prefixListCmp_exact_iff (a b : List PrefixListEntry) :
    CmpExact a b ↔ ¬Overcounts a b ∧ ¬Overcounts b a ∧
      (SamePrefixes a b → ∀ p ∈ a, p.plePlen.toNat ≤ 128) := by
  constructor
  · intro exact'
    have zeros := exact'.cmp _ _ (storedAs_storeAll (fun _ => false) a)
      (storedAs_storeAll (fun _ => false) b)
    refine ⟨?_, ?_, ?_⟩
    · intro more
      exact (zeros.mp (cmp_storeAll _ more.1 more.2.1)).not_overcounts more
    · intro more
      have back := cmp_storeAll (fun _ => false) more.1 more.2.1
      rw [← exact'.symmetric _ _ (storedAs_storeAll _ a) (storedAs_storeAll _ b)] at back
      exact SamePrefixes.not_overcounts (List.Perm.symm (zeros.mp back)) more
    · intro same p member
      by_contra long
      -- ones behind the first list, zeros behind the second
      have equal := (exact'.cmp _ _ (storedAs_storeAll (fun _ => true) a)
        (storedAs_storeAll (fun _ => false) b)).mpr same
      obtain ⟨q, inSecond, -, bits⟩ := ((prefixListCmp_iff _ _).mp equal).2 _
        (List.mem_map_of_mem member)
      obtain ⟨q, -, rfl⟩ := List.mem_map.mp inSecond
      exact absurd (bits 0 (by simp only; omega)) (by simp)
  · rintro ⟨notFirst, notSecond, short⟩
    have cmp : ∀ pl1 pl2, StoredAs pl1 a → StoredAs pl2 b →
        (prefixListCmp pl1 pl2 = 1 ↔ SamePrefixes a b) := by
      intro pl1 pl2 first second
      constructor
      · intro equal
        obtain ⟨lengths, contained⟩ := contained_of_cmp first second equal
        exact perm_of_not_overcounts notFirst lengths contained
      · intro same
        exact cmp_of_short first second (short same) same.contained.1 same.contained.2
    have back : ∀ pl1 pl2, StoredAs pl1 a → StoredAs pl2 b →
        (prefixListCmp pl2 pl1 = 1 ↔ SamePrefixes a b) := by
      intro pl1 pl2 first second
      constructor
      · intro equal
        obtain ⟨lengths, contained⟩ := contained_of_cmp second first equal
        exact List.Perm.symm (perm_of_not_overcounts notSecond lengths contained)
      · intro same
        have reverse : SamePrefixes b a := List.Perm.symm same
        refine cmp_of_short second first ?_ reverse.contained.1 reverse.contained.2
        intro p member
        obtain ⟨q, inFirst, equal⟩ :=
          List.mem_map.mp (reverse.contained.2 _ (List.mem_map_of_mem member))
        have bounded := short same q inFirst
        rwa [((prefixKey_eq_iff q p).mp equal).1] at bounded
    refine ⟨cmp, ?_, ?_⟩
    · intro pl1 pl2 first second
      have there := cmp pl1 pl2 first second
      rw [← back pl1 pl2 first second] at there
      rcases prefixListCmp_cases pl1 pl2 with equal | differ
      · rw [equal, there.mp equal]
      · rcases prefixListCmp_cases pl2 pl1 with equal' | differ'
        · rw [there.mpr equal', equal']
        · rw [differ, differ']
    · rintro pl1 pl2 first second env oldIf newIf baStatus ⟨k, changed⟩
      apply homeTnlChg_reinstalled
      rcases prefixListCmp_cases pl1 pl2 with equal | differ
      · have same := (cmp pl1 pl2 first second).mp equal
        exact absurd (List.Perm.mem_iff same) changed
      · exact differ

theorem docPrefix_size :
    [0x20, 0x01, 0x0d, 0xb8, 0, 0, 0, 0, 0, 0, 0, 0, 0, 0, 0, (0 : UInt8)].length = 16 := rfl

/-- `2001:db8::/32` in both places of one list, and once beside another prefix. -/
def docPrefix : PrefixListEntry :=
  ⟨32, ⟨[0x20, 0x01, 0x0d, 0xb8, 0, 0, 0, 0, 0, 0, 0, 0, 0, 0, 0, 0], docPrefix_size⟩⟩

def otherPrefix : PrefixListEntry :=
  ⟨32, ⟨[0x20, 0x01, 0x0d, 0xb9, 0, 0, 0, 0, 0, 0, 0, 0, 0, 0, 0, 0], rfl⟩⟩

theorem prefixListCmp_repeated :
    prefixListCmp (storeAll (fun _ => false) [docPrefix, docPrefix])
        (storeAll (fun _ => false) [docPrefix, otherPrefix]) = 1 ∧
      prefixListCmp (storeAll (fun _ => false) [docPrefix, otherPrefix])
        (storeAll (fun _ => false) [docPrefix, docPrefix]) = 0 ∧
      ¬SamePrefixes [docPrefix, docPrefix] [docPrefix, otherPrefix] ∧
      ¬CmpExact [docPrefix, docPrefix] [docPrefix, otherPrefix] := by
  have there : prefixListCmp (storeAll (fun _ => false) [docPrefix, docPrefix])
      (storeAll (fun _ => false) [docPrefix, otherPrefix]) = 1 := by decide +kernel
  have differ : ¬SamePrefixes [docPrefix, docPrefix] [docPrefix, otherPrefix] := by decide +kernel
  refine ⟨there, by decide +kernel, differ, ?_⟩
  intro exact'
  exact differ ((exact'.cmp _ _ (storedAs_storeAll _ _) (storedAs_storeAll _ _)).mp there)

end OaiPmip.PrefixLists
