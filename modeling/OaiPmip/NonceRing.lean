import Mathlib.Tactic.Common
import OaiPmip.Cn
import OaiPmip.Lib.Runs

/-!
# The ring of nonces over any number of regenerations, keygen.c

The bounds, the index in every place of the ring and the index that the search
counts up are sixteen bits wide.  The search is followed turn by turn, and the
timeline of tokens and regenerations is arbitrary as long as the clock goes
forward and a nonce whose time has come is regenerated before the next token.
-/

set_option autoImplicit false

namespace OaiPmip.NonceRing

open OaiPmip.Cn OaiPmip.Runs

/-- The search goes on, or the holder of an index that is not stored is used. -/
inductive SearchFault where
  | unfinished
  | nullHolder
  deriving DecidableEq

def engage (now : Timespec) (n : NonceHolder) : NonceHolder :=
  if tsisset n.validUntil then n else { n with validUntil := tsadd now maxNonceLifetime }

/-- The loop of `_get_valid_nonce`; `c` wraps around after 65535. -/
def searchLoop (now : Timespec) (max : UInt16) :
    Nat → Cn.State → UInt16 → Except SearchFault (Cn.State × Option NonceHolder)
  | 0, _, _ => .error .unfinished
  | fuel + 1, s, c =>
      if c ≤ max then
        match getNonce s c with
        | none => .error .nullHolder
        | some n =>
            let n := engage now n
            let s := { s with nonces := Function.update s.nonces (slot c) n }
            if (tssub n.validUntil now).tvSec ≥ maxTokenLifetime then .ok (s, some n)
            else searchLoop now max fuel s (c + 1)
      else .ok (s, none)

def searchFuel : Nat := 18

def search (s : Cn.State) (now : Timespec) : Except SearchFault (Cn.State × Option NonceHolder) :=
  searchLoop now s.maxNce searchFuel s s.minNce

section Ends
variable {now : Timespec} {max : UInt16}

theorem getNonce_some {s : Cn.State} {c : UInt16} {n : NonceHolder}
    (found : getNonce s c = some n) : s.nonces (slot c) = n ∧ n.nonceIndex = c := by
  simp only [getNonce] at found
  split at found
  · rename_i index
    cases found
    exact ⟨rfl, index⟩
  · cases found

theorem engage_index (now : Timespec) (n : NonceHolder) :
    (engage now n).nonceIndex = n.nonceIndex := by
  simp only [engage]
  split
  · rfl
  · rfl

theorem index_kept (s : Cn.State) {c : UInt16} {n : NonceHolder} (found : getNonce s c = some n)
    (now : Timespec) (i : Fin 16) :
    (Function.update s.nonces (slot c) (engage now n) i).nonceIndex = (s.nonces i).nonceIndex := by
  by_cases here : i = slot c
  · subst here
    rw [Function.update_self, engage_index, (getNonce_some found).1]
  · rw [Function.update_of_ne here]

theorem slot_wraps (c : UInt16) : slot (c + 16) = slot c := by
  have bound := c.toNat_lt
  have sum : (c + 16).toNat = (c.toNat + 16) % 65536 := UInt16.toNat_add c 16
  simp only [slot, Fin.ofNat, sum, Fin.mk.injEq]
  omega

/-- After a turn for `c` the search does not get past the index `c + 16`. -/
theorem searchLoop_stops {c : UInt16} : ∀ (turns : Nat) {s : Cn.State} {fuel : Nat},
    turns < fuel → (s.nonces (slot c)).nonceIndex = c →
    ∀ {d : UInt16}, d + UInt16.ofNat turns = c + 16 →
      searchLoop now max fuel s d ≠ .error .unfinished := by
  intro turns
  induction turns with
  | zero =>
      intro s fuel enough stored d reached
      obtain ⟨fuel, rfl⟩ := Nat.exists_eq_succ_of_ne_zero (Nat.ne_of_gt enough)
      have isLast : d = c + 16 := by
        simpa using reached
      have missing : getNonce s d = none := by
        have other : c ≠ c + 16 := by
          intro same
          have bound := c.toNat_lt
          have sum : (c + 16).toNat = (c.toNat + 16) % 65536 := UInt16.toNat_add c 16
          rw [← same] at sum
          omega
        rw [isLast]
        simp only [getNonce, slot_wraps, stored, if_neg other]
      simp only [searchLoop, missing]
      split
      · simp
      · simp
  | succ turns ih =>
      intro s fuel enough stored d reached
      obtain ⟨fuel, rfl⟩ := Nat.exists_eq_succ_of_ne_zero (Nat.ne_of_gt (Nat.lt_of_le_of_lt
        (Nat.zero_le _) enough))
      simp only [searchLoop]
      split
      · split
        · simp
        · rename_i n found
          split
          · simp
          · refine ih (by omega) ?_ ?_
            · rw [index_kept s found]
              exact stored
            · rw [← reached, UInt16.add_assoc]
              congr 1
              apply UInt16.toNat_inj.mp
              simp only [UInt16.toNat_add, UInt16.toNat_ofNat']
              have one : (1 : UInt16).toNat = 1 := rfl
              omega
      · simp

/-- The search ends on every ring, whatever the bounds and the clock. -/
theorem search_ends (s : Cn.State) (now : Timespec) : search s now ≠ .error .unfinished := by
  rw [search, searchFuel, searchLoop]
  split
  · split
    · simp
    · rename_i n found
      dsimp only
      split
      · simp
      · refine @searchLoop_stops now s.maxNce s.minNce 15 _ 17 (by decide) ?_ _ ?_
        · rw [index_kept s found, (getNonce_some found).1]
          exact (getNonce_some found).2
        · rw [UInt16.add_assoc]
          rfl
  · simp

theorem searchLoop_more : ∀ (fuel : Nat) {s : Cn.State} {c : UInt16}
    {result : Cn.State × Option NonceHolder}, searchLoop now max fuel s c = .ok result →
    searchLoop now max (fuel + 1) s c = .ok result := by
  intro fuel
  induction fuel with
  | zero =>
      intro s c result ended
      cases ended
  | succ fuel ih =>
      intro s c result ended
      rw [searchLoop] at ended ⊢
      split
      · rename_i inside
        rw [if_pos inside] at ended
        cases found : getNonce s c with
        | none => simp only [found] at ended; cases ended
        | some n =>
            simp only [found] at ended ⊢
            split
            · rename_i enough
              rw [if_pos enough] at ended
              exact ended
            · rename_i short
              rw [if_neg short] at ended
              exact ih ended
      · rename_i outside
        rw [if_neg outside] at ended
        exact ended

theorem getValidNonceFrom_cons {s : Cn.State} {c : UInt16} {n : NonceHolder}
    (found : getNonce s c = some n) (rest : List UInt16) :
    getValidNonceFrom now s (c :: rest) =
      if (tssub (engage now n).validUntil now).tvSec ≥ maxTokenLifetime
      then ({ s with nonces := Function.update s.nonces (slot c) (engage now n) },
        some (engage now n))
      else getValidNonceFrom now
        { s with nonces := Function.update s.nonces (slot c) (engage now n) } rest := by
  rw [getValidNonceFrom, found]
  rfl

theorem searchLoop_found : ∀ (len : Nat) {s after : Cn.State} {c : UInt16} {n : NonceHolder},
    searchLoop now max len s c = .ok (after, some n) →
    getValidNonceFrom now s ((List.range len).map fun i => c + UInt16.ofNat i) =
      (after, some n) := by
  intro len
  induction len with
  | zero =>
      intro s after c n ended
      cases ended
  | succ len ih =>
      intro s after c n ended
      have first : c + UInt16.ofNat 0 = c := UInt16.add_zero c
      have others : ((fun i => c + UInt16.ofNat i) ∘ Nat.succ) =
          fun i => c + 1 + UInt16.ofNat i := by
        funext i
        rw [UInt16.add_assoc, Function.comp_apply, Nat.succ_eq_one_add, UInt16.ofNat_add]
        rfl
      rw [List.range_succ_eq_map, List.map_cons, List.map_map, first, others]
      rw [searchLoop] at ended
      split at ended
      · cases found : getNonce s c with
        | none => simp only [found] at ended; cases ended
        | some holder =>
            rw [getValidNonceFrom_cons found]
            simp only [found] at ended
            split at ended
            · rename_i enough
              rw [if_pos enough]
              cases ended
              rfl
            · rename_i short
              rw [if_neg short]
              exact ih ended
      · cases ended

end Ends

/-! ## Time and the ring -/

def nanos (t : Timespec) : Int := t.tvSec * 1000000000 + t.tvNsec

/-- As `clock_gettime` fills it in, after the epoch. -/
structure Clock (t : Timespec) : Prop where
  epoch : 0 < t.tvSec
  low : 0 ≤ t.tvNsec
  high : t.tvNsec < 1000000000

theorem clock_whole {seconds : Int} (after : 0 < seconds) : Clock ⟨seconds, 0⟩ :=
  ⟨after, Int.le_refl 0, (by decide : (0 : Int) < 1000000000)⟩

theorem nanos_lifetime (now : Timespec) :
    nanos (tsadd now maxNonceLifetime) = nanos now + 240000000000 := by
  by_cases carry : now.tvNsec + maxNonceLifetime.tvNsec ≥ timeSecNsec
  · simp only [tsadd, if_pos carry, nanos]
    simp only [maxNonceLifetime, timeSecNsec]
    omega
  · simp only [tsadd, if_neg carry, nanos]
    simp only [maxNonceLifetime]
    omega

theorem clock_lifetime {now : Timespec} (clock : Clock now) :
    Clock (tsadd now maxNonceLifetime) := by
  obtain ⟨epoch, low, high⟩ := clock
  have noCarry : ¬now.tvNsec + maxNonceLifetime.tvNsec ≥ timeSecNsec := by
    simp only [maxNonceLifetime, timeSecNsec]
    omega
  simp only [tsadd, if_neg noCarry]
  simp only [maxNonceLifetime]
  exact ⟨by dsimp only; omega, by dsimp only; omega, by dsimp only; omega⟩

theorem remains_iff {until_ now : Timespec} (ends : Clock until_) (clock : Clock now) :
    maxTokenLifetime ≤ (tssub until_ now).tvSec ↔
      nanos now + 210000000000 ≤ nanos until_ := by
  have endsLow := ends.low
  have endsHigh := ends.high
  have low := clock.low
  have high := clock.high
  by_cases borrow : until_.tvNsec - now.tvNsec < 0
  · simp only [tssub, if_pos borrow, nanos]
    simp only [maxTokenLifetime]
    omega
  · simp only [tssub, if_neg borrow, nanos]
    simp only [maxTokenLifetime]
    omega

theorem isset_of_clock {t : Timespec} (clock : Clock t) : tsisset t = true := by
  have epoch := clock.epoch
  have other : t.tvSec ≠ 0 := by omega
  simp [tsisset, other]

theorem places_neZero : NeZero 16 := ⟨by decide⟩

attribute [local instance] places_neZero

def holder (s : Cn.State) (n : Nat) : NonceHolder := s.nonces (Fin.ofNat 16 n)

theorem slot_ofNat (n : Nat) : slot (UInt16.ofNat n) = Fin.ofNat 16 n := by
  simp only [slot, Fin.ofNat, UInt16.toNat_ofNat', Fin.mk.injEq]
  omega

theorem place_ne {first second : Nat} (near : first < second) (apart : second < first + 16) :
    Fin.ofNat 16 second ≠ Fin.ofNat 16 first := by
  intro same
  have places := congrArg Fin.val same
  simp only [Fin.ofNat] at places
  omega

theorem place_same (n : Nat) : Fin.ofNat 16 (n + 16) = Fin.ofNat 16 n := by
  simp only [Fin.ofNat, Fin.mk.injEq]
  omega

theorem place_of (k : Nat) (i : Fin 16) : ∃ j, j < 16 ∧ i = Fin.ofNat 16 (k + j) := by
  refine ⟨(i.val + 16 - k % 16) % 16, by omega, ?_⟩
  have small := i.isLt
  apply Fin.ext
  simp only [Fin.ofNat]
  omega

structure NonceRun where
  cn : Cn.State
  clock : Timespec

def NonceRun.init : NonceRun := ⟨Cn.State.init, ⟨0, 0⟩⟩

inductive NonceInput where
  | token (now : Timespec)
  | regen (now : Timespec) (i : Fin 16)

/-- `rr_cn_keygen_token` reads the nonce that is found, `nonce_regen` renews the
one whose task is run. -/
def step (w : NonceRun) : NonceInput → Except SearchFault NonceRun
  | .token now =>
      match search w.cn now with
      | .ok (s, some _) => .ok ⟨s, now⟩
      | .ok (_, none) => .error .nullHolder
      | .error fault => .error fault
  | .regen now i => .ok ⟨nonceRegen w.cn i, now⟩

def isSet (s : Cn.State) (i : Fin 16) : Prop := tsisset (s.nonces i).validUntil = true

/-- The clock goes forward, a nonce is regenerated when its time has come, in the
order of the times, and before the next token is asked for. -/
def Prompt (w : NonceRun) : NonceInput → Prop
  | .token now => Clock now ∧ nanos w.clock ≤ nanos now ∧
      ∀ i, isSet w.cn i → nanos now ≤ nanos (w.cn.nonces i).validUntil
  | .regen now i => Clock now ∧ nanos w.clock ≤ nanos now ∧
      isSet w.cn i ∧ nanos (w.cn.nonces i).validUntil ≤ nanos now ∧
      ∀ j, isSet w.cn j → nanos (w.cn.nonces i).validUntil ≤ nanos (w.cn.nonces j).validUntil

def NonceRun.regenerations (w : NonceRun) : Nat := w.cn.drawn - 16

/-- After `k` regenerations the ring holds sixteen indices in a row; the first `m`
of them have their lifetimes, more than thirty seconds apart. -/
structure RingOk (w : NonceRun) (k m : Nat) : Prop where
  drawn : w.cn.drawn = k + 16
  min : w.cn.minNce = UInt16.ofNat (k + 1)
  max : w.cn.maxNce = UInt16.ofNat (k + 16)
  stored : ∀ j, j < 16 → (holder w.cn (k + 1 + j)).nonceIndex = UInt16.ofNat (k + 1 + j)
  unset : ∀ j, m ≤ j → j < 16 → tsisset (holder w.cn (k + 1 + j)).validUntil = false
  live : ∀ j, j < m → Clock (holder w.cn (k + 1 + j)).validUntil ∧
    nanos (holder w.cn (k + 1 + j)).validUntil ≤ nanos w.clock + 240000000000
  spaced : ∀ j, j + 1 < m → nanos (holder w.cn (k + 1 + j)).validUntil + 30000000000 <
    nanos (holder w.cn (k + 1 + (j + 1))).validUntil
  few : m ≤ 9
  bound : k + m ≤ 65528

theorem ringOk_init : RingOk NonceRun.init 0 0 where
  drawn := rfl
  min := rfl
  max := rfl
  stored := by decide
  unset := by
    intro j _ small
    revert j
    decide
  live := fun j none_ => absurd none_ (Nat.not_lt_zero j)
  spaced := fun j none_ => absurd none_ (Nat.not_lt_zero _)
  few := by decide
  bound := by decide

section Search
variable {w : NonceRun} {k m : Nat} {now : Timespec}

def started (s : Cn.State) (now : Timespec) (n : Nat) : Cn.State :=
  let lasting := { holder s n with validUntil := tsadd now maxNonceLifetime }
  { s with nonces := Function.update s.nonces (Fin.ofNat 16 n) lasting }

theorem RingOk.found (ok : RingOk w k m) {j : Nat} (small : j < 16) :
    getNonce w.cn (UInt16.ofNat (k + 1 + j)) = some (holder w.cn (k + 1 + j)) := by
  have stored := ok.stored j small
  simp only [holder] at stored
  simp only [getNonce, slot_ofNat, holder, if_pos stored]

theorem RingOk.in_bounds (ok : RingOk w k m) (early : k < 65520) {j : Nat} (small : j < 16) :
    UInt16.ofNat (k + 1 + j) ≤ w.cn.maxNce := by
  rw [ok.max, UInt16.le_iff_toNat_le, UInt16.toNat_ofNat', UInt16.toNat_ofNat']
  omega

theorem RingOk.m_lt (ok : RingOk w k m) : m < 16 := Nat.lt_of_le_of_lt ok.few (by decide)

theorem RingOk.turn_live (ok : RingOk w k m) (early : k < 65520) (clock : Clock now) {j : Nat}
    (isLive : j < m) (fuel : Nat) :
    searchLoop now w.cn.maxNce (fuel + 1) w.cn (UInt16.ofNat (k + 1 + j)) =
      if nanos now + 210000000000 ≤ nanos (holder w.cn (k + 1 + j)).validUntil
      then .ok (w.cn, some (holder w.cn (k + 1 + j)))
      else searchLoop now w.cn.maxNce fuel w.cn (UInt16.ofNat (k + 1 + (j + 1))) := by
  have small : j < 16 := Nat.lt_trans isLive ok.m_lt
  obtain ⟨ends, -⟩ := ok.live j isLive
  have kept : engage now (holder w.cn (k + 1 + j)) = holder w.cn (k + 1 + j) := by
    rw [engage, if_pos (isset_of_clock ends)]
  have same : Function.update w.cn.nonces (slot (UInt16.ofNat (k + 1 + j)))
      (holder w.cn (k + 1 + j)) = w.cn.nonces := by
    rw [slot_ofNat, holder, Function.update_eq_self]
  have next : UInt16.ofNat (k + 1 + j) + 1 = UInt16.ofNat (k + 1 + (j + 1)) :=
    (UInt16.ofNat_add (k + 1 + j) 1).symm
  simp only [searchLoop, if_pos (ok.in_bounds early small), ok.found small, kept, same, next,
    ge_iff_le, remains_iff ends clock]

theorem RingOk.turn_unset (ok : RingOk w k m) (early : k < 65520) (clock : Clock now)
    (fuel : Nat) :
    ∃ n, searchLoop now w.cn.maxNce (fuel + 1) w.cn (UInt16.ofNat (k + 1 + m)) =
        .ok (started w.cn now (k + 1 + m), some n) ∧
      maxTokenLifetime ≤ (tssub n.validUntil now).tvSec := by
  have fresh : engage now (holder w.cn (k + 1 + m)) =
      { holder w.cn (k + 1 + m) with validUntil := tsadd now maxNonceLifetime } := by
    rw [engage, if_neg]
    rw [ok.unset m (Nat.le_refl m) ok.m_lt]
    decide
  have enough : maxTokenLifetime ≤ (tssub (tsadd now maxNonceLifetime) now).tvSec := by
    rw [remains_iff (clock_lifetime clock) clock, nanos_lifetime]
    omega
  refine ⟨{ holder w.cn (k + 1 + m) with validUntil := tsadd now maxNonceLifetime }, ?_, enough⟩
  simp only [searchLoop, if_pos (ok.in_bounds early ok.m_lt), ok.found ok.m_lt, fresh, ge_iff_le,
    if_pos enough, slot_ofNat, started]

def Searched (w : NonceRun) (k m : Nat) (now : Timespec) (s : Cn.State) : Prop :=
  s = w.cn ∨ s = started w.cn now (k + 1 + m) ∧
    ∀ i, i < m → nanos (holder w.cn (k + 1 + i)).validUntil < nanos now + 210000000000

/-- The search from the index `k + 1 + j` on, the earlier ones passed over. -/
theorem RingOk.search_from (ok : RingOk w k m) (early : k < 65520) (clock : Clock now) :
    ∀ (d : Nat) {j fuel : Nat}, j + d = m → d < fuel →
      (∀ i, i < j → nanos (holder w.cn (k + 1 + i)).validUntil < nanos now + 210000000000) →
      ∃ s n, searchLoop now w.cn.maxNce fuel w.cn (UInt16.ofNat (k + 1 + j)) = .ok (s, some n) ∧
        maxTokenLifetime ≤ (tssub n.validUntil now).tvSec ∧ Searched w k m now s := by
  intro d
  induction d with
  | zero =>
      intro j fuel here enough passed
      obtain ⟨fuel, rfl⟩ := Nat.exists_eq_succ_of_ne_zero (Nat.ne_of_gt enough)
      obtain rfl : j = m := by omega
      obtain ⟨n, found, lasting⟩ := ok.turn_unset early clock fuel
      exact ⟨_, n, found, lasting, .inr ⟨rfl, passed⟩⟩
  | succ d ih =>
      intro j fuel here enough passed
      obtain ⟨fuel, rfl⟩ := Nat.exists_eq_succ_of_ne_zero (Nat.ne_of_gt (Nat.lt_of_le_of_lt
        (Nat.zero_le _) enough))
      have isLive : j < m := by omega
      rw [ok.turn_live early clock isLive fuel]
      by_cases lasting : nanos now + 210000000000 ≤ nanos (holder w.cn (k + 1 + j)).validUntil
      · rw [if_pos lasting]
        exact ⟨_, _, rfl, (remains_iff (ok.live j isLive).1 clock).mpr lasting, .inl rfl⟩
      · rw [if_neg lasting]
        refine ih (by omega) (by omega) ?_
        intro i before
        by_cases last : i = j
        · subst last
          omega
        · exact passed i (by omega)

theorem RingOk.search_succeeds (ok : RingOk w k m) (early : k < 65520) (clock : Clock now) :
    ∃ s n, search w.cn now = .ok (s, some n) ∧ getValidNonce w.cn now = (s, some n) ∧
      maxTokenLifetime ≤ (tssub n.validUntil now).tvSec ∧ Searched w k m now s := by
  obtain ⟨s, n, found, lasting, searched⟩ := ok.search_from early clock m (Nat.zero_add m) ok.m_lt
    (fun i none_ => absurd none_ (Nat.not_lt_zero i))
  have inOrder : w.cn.minNce ≤ w.cn.maxNce := by
    rw [ok.min]
    exact ok.in_bounds early (by decide : 0 < 16)
  have start : UInt16.ofNat (k + 1 + 0) = w.cn.minNce := ok.min.symm
  rw [start] at found
  refine ⟨s, n, searchLoop_more 17 (searchLoop_more 16 found), ?_, lasting, searched⟩
  rw [getValidNonce, if_pos inOrder]
  exact searchLoop_found 16 found

theorem RingOk.search_fails (ok : RingOk w k m) (late : 65520 ≤ k) (now : Timespec) :
    search w.cn now = .ok (w.cn, none) := by
  have bound := ok.bound
  have crossed : ¬w.cn.minNce ≤ w.cn.maxNce := by
    rw [ok.min, ok.max, UInt16.le_iff_toNat_le, UInt16.toNat_ofNat', UInt16.toNat_ofNat']
    omega
  simp only [search, searchFuel, searchLoop, if_neg crossed]

end Search

/-! ## Every run -/

section Steps
variable {w : NonceRun} {k m : Nat}

theorem holder_update (s : Cn.State) (n i : Nat) (h : NonceHolder) (other : Fin.ofNat 16 i ≠
    Fin.ofNat 16 n) : holder { s with nonces := Function.update s.nonces (Fin.ofNat 16 n) h } i =
    holder s i := Function.update_of_ne other _ _

theorem RingOk.set_iff (ok : RingOk w k m) {j : Nat} (small : j < 16) :
    isSet w.cn (Fin.ofNat 16 (k + 1 + j)) ↔ j < m := by
  constructor
  · intro set
    by_cases late : j < m
    · exact late
    · have clear := ok.unset j (Nat.le_of_not_lt late) small
      exact absurd (set.symm.trans clear) (by decide)
  · exact fun isLive => isset_of_clock (ok.live j isLive).1

theorem RingOk.set_place (ok : RingOk w k m) {i : Fin 16} (set : isSet w.cn i) :
    ∃ j, j < m ∧ i = Fin.ofNat 16 (k + 1 + j) := by
  obtain ⟨j, small, rfl⟩ := place_of (k + 1) i
  exact ⟨j, (ok.set_iff small).mp set, rfl⟩

theorem RingOk.first_expires (ok : RingOk w k m) : ∀ (j : Nat), j < m →
    nanos (holder w.cn (k + 1)).validUntil + 30000000000 * j ≤
      nanos (holder w.cn (k + 1 + j)).validUntil := by
  intro j
  induction j with
  | zero =>
      intro _
      simp
  | succ j ih =>
      intro isLive
      have before := ih (by omega)
      have apart := ok.spaced j isLive
      push_cast
      omega

theorem RingOk.room (ok : RingOk w k m) {now : Timespec}
    (valid : ∀ i, isSet w.cn i → nanos now ≤ nanos (w.cn.nonces i).validUntil)
    (passed : ∀ i, i < m →
      nanos (holder w.cn (k + 1 + i)).validUntil < nanos now + 210000000000) : m ≤ 8 := by
  cases m with
  | zero => decide
  | succ last =>
      have starts : nanos now ≤ nanos (holder w.cn (k + 1)).validUntil :=
        valid _ ((ok.set_iff (j := 0) (by decide)).mpr (Nat.succ_pos last))
      have ends := passed last (Nat.lt_succ_self last)
      have apart := ok.first_expires last (Nat.lt_succ_self last)
      omega

theorem RingOk.later (ok : RingOk w k m) {now : Timespec} (forward : nanos w.clock ≤ nanos now) :
    RingOk ⟨w.cn, now⟩ k m where
  drawn := ok.drawn
  min := ok.min
  max := ok.max
  stored := ok.stored
  unset := ok.unset
  live := by
    intro j isLive
    obtain ⟨clock, soon⟩ := ok.live j isLive
    exact ⟨clock, by dsimp only; omega⟩
  spaced := ok.spaced
  few := ok.few
  bound := ok.bound

theorem RingOk.start (ok : RingOk w k m) (early : k < 65520) {now : Timespec} (clock : Clock now)
    (forward : nanos w.clock ≤ nanos now)
    (passed : ∀ i, i < m → nanos (holder w.cn (k + 1 + i)).validUntil < nanos now + 210000000000)
    (room : m ≤ 8) : RingOk ⟨started w.cn now (k + 1 + m), now⟩ k (m + 1) := by
  have mine : holder (started w.cn now (k + 1 + m)) (k + 1 + m) =
      { holder w.cn (k + 1 + m) with validUntil := tsadd now maxNonceLifetime } :=
    Function.update_self _ _ _
  have others : ∀ j, j < 16 → j ≠ m →
      holder (started w.cn now (k + 1 + m)) (k + 1 + j) = holder w.cn (k + 1 + j) := by
    intro j small other
    refine holder_update w.cn _ _ _ ?_
    rcases Nat.lt_or_gt_of_ne other with before | after
    · exact (place_ne (by omega) (by omega)).symm
    · exact place_ne (by omega) (by omega)
  refine ⟨ok.drawn, ok.min, ok.max, ?_, ?_, ?_, ?_, by omega, by omega⟩
  · intro j small
    by_cases here : j = m
    · subst here
      rw [mine]
      exact ok.stored j small
    · rw [others j small here]
      exact ok.stored j small
  · intro j after small
    rw [others j small (by omega)]
    exact ok.unset j (by omega) small
  · intro j isLive
    by_cases here : j = m
    · subst here
      rw [mine]
      exact ⟨clock_lifetime clock, by rw [nanos_lifetime]⟩
    · rw [others j (by omega) here]
      exact (ok.later forward).live j (by omega)
  · intro j isLive
    rw [others j (by omega) (by omega)]
    by_cases last : j + 1 = m
    · rw [last, mine]
      have soon := passed j (by omega)
      dsimp only
      rw [nanos_lifetime]
      omega
    · rw [others (j + 1) (by omega) last]
      exact ok.spaced j (by omega)

theorem RingOk.due_first (ok : RingOk w k m) {i : Fin 16} (set : isSet w.cn i)
    (least : ∀ j, isSet w.cn j →
      nanos (w.cn.nonces i).validUntil ≤ nanos (w.cn.nonces j).validUntil) :
    0 < m ∧ i = Fin.ofNat 16 (k + 1) := by
  obtain ⟨j, isLive, rfl⟩ := ok.set_place set
  have some_ : 0 < m := by omega
  have soonest := least (Fin.ofNat 16 (k + 1)) ((ok.set_iff (j := 0) (by decide)).mpr some_)
  have apart := ok.first_expires j isLive
  simp only [holder] at apart
  have isFirst : j = 0 := by omega
  subst isFirst
  exact ⟨some_, rfl⟩

theorem RingOk.regen (ok : RingOk w k (m + 1)) {now : Timespec}
    (forward : nanos w.clock ≤ nanos now) :
    RingOk ⟨nonceRegen w.cn (Fin.ofNat 16 (k + 1)), now⟩ (k + 1) m := by
  have few := ok.few
  have bound := ok.bound
  have mine : holder (nonceRegen w.cn (Fin.ofNat 16 (k + 1))) (k + 1 + 16) =
      ⟨(holder w.cn (k + 1)).nonceIndex + 16, w.cn.drawn, ⟨0, 0⟩⟩ := by
    simp only [holder, nonceRegen, place_same, Function.update_self]
  have others : ∀ j, j < 15 → holder (nonceRegen w.cn (Fin.ofNat 16 (k + 1))) (k + 1 + 1 + j) =
      holder w.cn (k + 1 + (j + 1)) := by
    intro j small
    have same : k + 1 + 1 + j = k + 1 + (j + 1) := by omega
    rw [same]
    exact Function.update_of_ne (place_ne (by omega) (by omega)) _ _
  have first := ok.stored 0 (by decide)
  refine ⟨?_, ?_, ?_, ?_, ?_, ?_, ?_, by omega, by omega⟩
  · simp only [nonceRegen, ok.drawn]
  · simp only [nonceRegen, ok.min]
    exact (UInt16.ofNat_add (k + 1) 1).symm
  · simp only [nonceRegen, ok.max]
    rw [Nat.add_right_comm k 1 16]
    exact (UInt16.ofNat_add (k + 16) 1).symm
  · intro j small
    by_cases renewed : j = 15
    · subst renewed
      have last : k + 1 + 1 + 15 = k + 1 + 16 := by omega
      rw [last, mine]
      dsimp only
      rw [UInt16.ofNat_add (k + 1) 16]
      exact congrArg (· + 16) first
    · have same : k + 1 + 1 + j = k + 1 + (j + 1) := by omega
      rw [others j (by omega), ok.stored (j + 1) (by omega), same]
  · intro j after small
    by_cases renewed : j = 15
    · subst renewed
      have last : k + 1 + 1 + 15 = k + 1 + 16 := by omega
      rw [last, mine]
      rfl
    · rw [others j (by omega)]
      exact ok.unset (j + 1) (by omega) (by omega)
  · intro j isLive
    rw [others j (by omega)]
    exact (ok.later forward).live (j + 1) (by omega)
  · intro j isLive
    rw [others j (by omega), others (j + 1) (by omega)]
    exact ok.spaced (j + 1) (by omega)

theorem RingOk.keeps (ok : RingOk w k m) {input : NonceInput} (prompt : Prompt w input)
    {next : NonceRun} (taken : step w input = .ok next) :
    ∃ k m, RingOk next k m := by
  cases input with
  | token now =>
      obtain ⟨clock, forward, valid⟩ := prompt
      by_cases early : k < 65520
      · obtain ⟨s, n, found, -, -, searched⟩ := ok.search_succeeds early clock
        simp only [step, found, Except.ok.injEq] at taken
        subst taken
        rcases searched with rfl | ⟨rfl, passed⟩
        · exact ⟨k, m, ok.later forward⟩
        · exact ⟨k, m + 1, ok.start early clock forward passed (ok.room valid passed)⟩
      · simp [step, ok.search_fails (by omega)] at taken
  | regen now i =>
      obtain ⟨-, forward, set, -, least⟩ := prompt
      obtain ⟨some_, rfl⟩ := ok.due_first set least
      obtain ⟨m, rfl⟩ := Nat.exists_eq_succ_of_ne_zero (Nat.ne_of_gt some_)
      simp only [step, Except.ok.injEq] at taken
      subst taken
      exact ⟨k + 1, m, ok.regen forward⟩

theorem ringOk_reached {inputs : List NonceInput}
    (prompt : Meets step Prompt NonceRun.init inputs)
    (reached : run step NonceRun.init inputs = .ok w) : ∃ k m, RingOk w k m := by
  refine @run_invariant _ _ _ step Prompt (fun w => ∃ k m, RingOk w k m) ?_ _ _ _
    ⟨0, 0, ringOk_init⟩ prompt reached
  intro state input next held condition taken
  obtain ⟨k, m, ok⟩ := held
  exact ok.keeps condition taken

end Steps

def Between (s : Cn.State) (c : UInt16) : Prop := c - s.minNce ≤ s.maxNce - s.minNce

/-- The indices between the bounds are those in the ring, each in its place. -/
structure Exact (s : Cn.State) : Prop where
  indices : ∀ c, Between s c ↔ ∃ i, (s.nonces i).nonceIndex = c
  found : ∀ c, Between s c ↔ (getNonce s c).isSome

def Good (s : Cn.State) (now : Timespec) : Prop :=
  ∃ after n, search s now = .ok (after, some n) ∧
    maxTokenLifetime ≤ (tssub n.validUntil now).tvSec

section Exact
variable {w : NonceRun} {k m : Nat}

theorem RingOk.between_iff (ok : RingOk w k m) (c : UInt16) :
    Between w.cn c ↔ ∃ j, j < 16 ∧ c = UInt16.ofNat (k + 1 + j) := by
  have span : w.cn.maxNce - w.cn.minNce = 15 := by
    apply UInt16.toNat_inj.mp
    rw [ok.min, ok.max, UInt16.toNat_sub, UInt16.toNat_ofNat', UInt16.toNat_ofNat']
    show _ = 15
    omega
  have bound := c.toNat_lt
  rw [Between, span, ok.min, UInt16.le_iff_toNat_le, UInt16.toNat_sub, UInt16.toNat_ofNat']
  have fifteen : (15 : UInt16).toNat = 15 := rfl
  rw [fifteen]
  constructor
  · intro near
    refine ⟨_, Nat.lt_succ_of_le near, ?_⟩
    apply UInt16.toNat_inj.mp
    rw [UInt16.toNat_ofNat']
    omega
  · intro place
    obtain ⟨j, small, rfl⟩ := place
    rw [UInt16.toNat_ofNat']
    omega

theorem RingOk.exact (ok : RingOk w k m) : Exact w.cn where
  indices := by
    intro c
    rw [ok.between_iff]
    constructor
    · intro place
      obtain ⟨j, small, rfl⟩ := place
      exact ⟨_, ok.stored j small⟩
    · intro place
      obtain ⟨i, rfl⟩ := place
      obtain ⟨j, small, rfl⟩ := place_of (k + 1) i
      exact ⟨j, small, ok.stored j small⟩
  found := by
    intro c
    rw [ok.between_iff]
    constructor
    · intro place
      obtain ⟨j, small, rfl⟩ := place
      rw [ok.found small]
      rfl
    · intro some_
      obtain ⟨n, found⟩ := Option.isSome_iff_exists.mp some_
      obtain ⟨stored, rfl⟩ := getNonce_some found
      obtain ⟨j, small, here⟩ := place_of (k + 1) (slot n.nonceIndex)
      refine ⟨j, small, ?_⟩
      rw [← ok.stored j small, holder, ← here, stored]

theorem RingOk.good_iff (ok : RingOk w k m) {now : Timespec} (clock : Clock now) :
    Good w.cn now ↔ k < 65520 := by
  constructor
  · intro good
    obtain ⟨s, n, found, -⟩ := good
    by_cases early : k < 65520
    · exact early
    · rw [ok.search_fails (by omega)] at found
      cases found
  · intro early
    obtain ⟨s, n, found, -, lasting, -⟩ := ok.search_succeeds early clock
    exact ⟨s, n, found, lasting⟩

theorem RingOk.regenerations (ok : RingOk w k m) : w.regenerations = k := by
  simp only [NonceRun.regenerations, ok.drawn]
  omega

end Exact

theorem nonce_ring_iff {inputs : List NonceInput} {w : NonceRun}
    (prompt : Meets step Prompt NonceRun.init inputs)
    (reached : run step NonceRun.init inputs = .ok w) :
    Exact w.cn ∧ ∀ now, Prompt w (.token now) →
      (Good w.cn now ↔ w.regenerations < 65520) := by
  obtain ⟨k, m, ok⟩ := ringOk_reached prompt reached
  refine ⟨ok.exact, ?_⟩
  intro now asked
  rw [ok.regenerations]
  exact ok.good_iff asked.1

def cycles : Nat → Nat → List NonceInput
  | _, 0 => []
  | k, n + 1 =>
      .token ⟨240 * k + 1, 0⟩ :: .regen ⟨240 * k + 241, 0⟩ (Fin.ofNat 16 (k + 1)) ::
        cycles (k + 1) n

theorem RingOk.cycle {w : NonceRun} {k : Nat} (ok : RingOk w k 0)
    (before : nanos w.clock ≤ nanos ⟨240 * k + 1, 0⟩) (early : k < 65520) :
    ∃ middle final, step w (.token ⟨240 * k + 1, 0⟩) = .ok middle ∧
      step middle (.regen ⟨240 * k + 241, 0⟩ (Fin.ofNat 16 (k + 1))) = .ok final ∧
      Prompt w (.token ⟨240 * k + 1, 0⟩) ∧
      Prompt middle (.regen ⟨240 * k + 241, 0⟩ (Fin.ofNat 16 (k + 1))) ∧
      RingOk final (k + 1) 0 ∧ final.clock = ⟨240 * k + 241, 0⟩ := by
  have clock : Clock ⟨240 * k + 1, 0⟩ := clock_whole (by omega)
  have due : Clock ⟨240 * k + 241, 0⟩ := clock_whole (by omega)
  have forward : nanos ⟨240 * k + 1, 0⟩ ≤ nanos ⟨240 * k + 241, 0⟩ := by
    simp only [nanos]
    omega
  obtain ⟨n, found, lasting⟩ := ok.turn_unset early clock 17
  have searched : search w.cn ⟨240 * k + 1, 0⟩ =
      .ok (started w.cn ⟨240 * k + 1, 0⟩ (k + 1), some n) := by
    rw [search, ok.min]
    exact found
  have asked : step w (.token ⟨240 * k + 1, 0⟩) =
      .ok ⟨started w.cn ⟨240 * k + 1, 0⟩ (k + 1), ⟨240 * k + 1, 0⟩⟩ := by
    simp only [step, searched]
  have ok₁ : RingOk ⟨started w.cn ⟨240 * k + 1, 0⟩ (k + 1), ⟨240 * k + 1, 0⟩⟩ k 1 :=
    ok.start early clock before (fun i none_ => absurd none_ (Nat.not_lt_zero i)) (by decide)
  have ends : nanos (holder (started w.cn ⟨240 * k + 1, 0⟩ (k + 1)) (k + 1)).validUntil =
      nanos ⟨240 * k + 241, 0⟩ := by
    simp only [holder, started, Function.update_self]
    rw [nanos_lifetime]
    simp only [nanos]
    omega
  refine ⟨_, _, asked, rfl, ⟨clock, before, ?_⟩, ⟨due, forward, ?_, ?_, ?_⟩,
    ok₁.regen forward, rfl⟩
  · intro i set
    obtain ⟨j, none_, -⟩ := ok.set_place set
    exact absurd none_ (Nat.not_lt_zero j)
  · exact (@RingOk.set_iff _ _ _ ok₁ 0 (by decide)).mpr (by decide)
  · exact Int.le_of_eq ends
  · intro i set
    obtain ⟨j, only, rfl⟩ := ok₁.set_place set
    obtain rfl : j = 0 := by omega
    exact Int.le_refl _

theorem cycles_run : ∀ (n : Nat) {k : Nat} {w : NonceRun}, RingOk w k 0 →
    nanos w.clock ≤ nanos ⟨240 * k + 1, 0⟩ → k + n ≤ 65520 →
    ∃ final, Meets step Prompt w (cycles k n) ∧ run step w (cycles k n) = .ok final ∧
      RingOk final (k + n) 0 ∧ nanos final.clock ≤ nanos ⟨240 * (k + n : Nat) + 1, 0⟩ := by
  intro n
  induction n with
  | zero =>
      intro k w ok before _
      exact ⟨w, trivial, rfl, ok, before⟩
  | succ n ih =>
      intro k w ok before few
      obtain ⟨middle, next, asked, renewed, prompt₁, prompt₂, okNext, clock⟩ :=
        ok.cycle before (by omega)
      have later : nanos next.clock ≤ nanos ⟨240 * (k + 1 : Nat) + 1, 0⟩ := by
        rw [clock]
        simp only [nanos]
        omega
      obtain ⟨final, restPrompt, restRun, okFinal, ends⟩ := ih okNext later (by omega)
      have count : k + 1 + n = k + (n + 1) := by omega
      rw [count] at okFinal ends
      refine ⟨final, ⟨prompt₁, ?_⟩, ?_, okFinal, ends⟩
      · intro other taken
        obtain rfl := Except.ok.inj (asked.symm.trans taken)
        refine ⟨prompt₂, ?_⟩
        intro last taken
        obtain rfl := Except.ok.inj (renewed.symm.trans taken)
        exact restPrompt
      · simp only [cycles, run, asked, renewed, restRun]

theorem cycles_ring (n : Nat) (few : n ≤ 65520) :
    ∃ final, Meets step Prompt NonceRun.init (cycles 0 n) ∧
      run step NonceRun.init (cycles 0 n) = .ok final ∧ RingOk final n 0 ∧
      Prompt final (.token ⟨240 * n + 1, 0⟩) := by
  obtain ⟨final, prompt, reached, ok, before⟩ :=
    cycles_run n ringOk_init (by decide) (by omega)
  rw [Nat.zero_add] at ok before
  refine ⟨final, prompt, reached, ok, clock_whole (by omega), before, ?_⟩
  intro i set
  obtain ⟨j, none_, -⟩ := ok.set_place set
  exact absurd none_ (Nat.not_lt_zero j)

theorem nonce_ring_three_cycles :
    ∃ w, run step NonceRun.init (cycles 0 3) = .ok w ∧ Exact w.cn ∧ Good w.cn ⟨721, 0⟩ := by
  obtain ⟨w, prompt, reached, ok, asked⟩ := cycles_ring 3 (by decide)
  obtain ⟨exact, good⟩ := nonce_ring_iff prompt reached
  refine ⟨w, reached, exact, (good ⟨721, 0⟩ asked).mpr ?_⟩
  rw [ok.regenerations]
  decide

/-- After 65520 regenerations a token is asked for in vain. -/
theorem nonce_ring_wraps :
    ∃ w, Meets step Prompt NonceRun.init (cycles 0 65520) ∧
      run step NonceRun.init (cycles 0 65520) = .ok w ∧
      Prompt w (.token ⟨15724801, 0⟩) ∧ search w.cn ⟨15724801, 0⟩ = .ok (w.cn, none) ∧
      ¬Good w.cn ⟨15724801, 0⟩ := by
  obtain ⟨w, prompt, reached, ok, asked⟩ := cycles_ring 65520 (Nat.le_refl _)
  refine ⟨w, prompt, reached, asked, ok.search_fails (Nat.le_refl _) _, ?_⟩
  rw [ok.good_iff (clock_whole (by decide))]
  decide

end OaiPmip.NonceRing
