import Mathlib.Logic.Function.Basic
import Mathlib.Data.List.Nodup
import OaiPmip.HnpCache
import OaiPmip.Lib.Runs

/-!
# Histories of the home network prefix cache

What a history of `pmip_insert_into_hnp_cache` calls leaves in `g_mn_hn_map`.
The cache stands for a finite map from identifiers to a prefix and a NAI; an
insertion updates that map at its identifier, except that the update branch
stores the prefix alone.
-/

set_option autoImplicit false

namespace OaiPmip.HnpCache

/-- The arguments of one `pmip_insert_into_hnp_cache`. -/
structure Insertion where
  mnIid : In6Addr
  addr : In6Addr
  nai : Nai

def insertion (map : List MnidHnp) (given : Insertion) : List MnidHnp :=
  pmipInsertIntoHnpCache map given.mnIid given.addr given.nai

def cacheAfter (history : List Insertion) : List MnidHnp := history.foldl insertion []

def iids (map : List MnidHnp) : List In6Addr := map.map MnidHnp.mnIid

theorem present_iff (map : List MnidHnp) (mnIid : In6Addr) :
    (map.any fun entry => entry.mnIid = mnIid) = true ↔ mnIid ∈ iids map := by
  simp [iids, List.any_eq_true]

theorem lookup_eq_none (map : List MnidHnp) (mnIid : In6Addr) :
    lookup map mnIid = none ↔ mnIid ∉ iids map := by
  simp [lookup, iids, List.find?_eq_none]

theorem iids_setPrefix (mnIid addr : In6Addr) (map : List MnidHnp) :
    iids (setPrefix mnIid addr map) = iids map := by
  induction map with
  | nil => rfl
  | cons entry rest ih =>
      simp only [setPrefix]
      split
      · rfl
      · simp only [iids, List.map_cons] at ih ⊢
        rw [ih]

theorem lookup_setPrefix_self (mnIid addr : In6Addr) (map : List MnidHnp) :
    lookup (setPrefix mnIid addr map) mnIid =
      (lookup map mnIid).map fun entry => { entry with mnPrefix := addr } := by
  induction map with
  | nil => rfl
  | cons entry rest ih =>
      simp only [setPrefix]
      split
      · rename_i here
        simp [lookup, here]
      · rename_i other
        simp only [lookup, List.find?_cons, other, decide_false] at ih ⊢
        exact ih

theorem lookup_setPrefix_other (mnIid addr : In6Addr) (map : List MnidHnp) {other : In6Addr}
    (different : other ≠ mnIid) : lookup (setPrefix mnIid addr map) other = lookup map other := by
  induction map with
  | nil => rfl
  | cons entry rest ih =>
      simp only [setPrefix]
      split
      · rename_i here
        have missed : entry.mnIid ≠ other := fun same => different (same.symm.trans here)
        simp only [lookup, List.find?_cons, missed, decide_false]
      · simp only [lookup, List.find?_cons] at ih ⊢
        rw [ih]

theorem insert_known {map : List MnidHnp} {mnIid : In6Addr} (known : mnIid ∈ iids map)
    (addr : In6Addr) (nai : Nai) :
    pmipInsertIntoHnpCache map mnIid addr nai = setPrefix mnIid addr map := by
  simp only [pmipInsertIntoHnpCache]
  rw [if_pos ((present_iff map mnIid).mpr known)]

theorem insert_new {map : List MnidHnp} {mnIid : In6Addr} (unknown : mnIid ∉ iids map)
    (room : map.length < maxMobiles) (addr : In6Addr) (nai : Nai) :
    pmipInsertIntoHnpCache map mnIid addr nai = map ++ [⟨addr, mnIid, nai⟩] := by
  simp only [pmipInsertIntoHnpCache]
  rw [if_neg (fun present => unknown ((present_iff map mnIid).mp present)), if_pos room]

theorem insert_full {map : List MnidHnp} {mnIid : In6Addr} (unknown : mnIid ∉ iids map)
    (full : ¬ map.length < maxMobiles) (addr : In6Addr) (nai : Nai) :
    pmipInsertIntoHnpCache map mnIid addr nai = map := by
  simp only [pmipInsertIntoHnpCache]
  rw [if_neg (fun present => unknown ((present_iff map mnIid).mp present)), if_neg full]

structure Bounded (map : List MnidHnp) : Prop where
  distinct : (iids map).Nodup
  fits : map.length ≤ maxMobiles

theorem length_iids (map : List MnidHnp) : (iids map).length = map.length := by
  simp [iids]

theorem Bounded.insertion {map : List MnidHnp} (bounded : Bounded map) (given : Insertion) :
    Bounded (insertion map given) := by
  simp only [HnpCache.insertion]
  by_cases known : given.mnIid ∈ iids map
  · rw [insert_known known]
    have same := iids_setPrefix given.mnIid given.addr map
    refine ⟨by rw [same]; exact bounded.distinct, ?_⟩
    have count := congrArg List.length same
    rw [length_iids, length_iids] at count
    have fits := bounded.fits
    omega
  · by_cases room : map.length < maxMobiles
    · rw [insert_new known room]
      have appended : iids (map ++ [⟨given.addr, given.mnIid, given.nai⟩]) =
          iids map ++ [given.mnIid] := by
        simp [iids]
      refine ⟨?_, ?_⟩
      · rw [appended, List.nodup_append]
        refine ⟨bounded.distinct, by simp, ?_⟩
        intro one member other last same
        rw [List.mem_singleton] at last
        subst same last
        exact known member
      · simp only [List.length_append, List.length_singleton]
        omega
    · rw [insert_full known room]
      exact bounded

theorem bounded_history (history : List Insertion) :
    ∀ {map : List MnidHnp}, Bounded map → Bounded (history.foldl insertion map) := by
  induction history with
  | nil => exact fun bounded => bounded
  | cons given rest ih => exact fun bounded => ih (bounded.insertion given)

theorem bounded_cacheAfter (history : List Insertion) : Bounded (cacheAfter history) :=
  bounded_history history ⟨by simp [iids], by simp [maxMobiles]⟩

/-! ## The finite map the cache stands for -/

def contents (map : List MnidHnp) (mnIid : In6Addr) : Option (In6Addr × Nai) :=
  (lookup map mnIid).map fun entry => (entry.mnPrefix, entry.mnNai)

def keptNai (map : List MnidHnp) (mnIid : In6Addr) (nai : Nai) : Nai :=
  ((lookup map mnIid).map MnidHnp.mnNai).getD nai

theorem lookup_append_self (map : List MnidHnp) (entry : MnidHnp)
    (unknown : entry.mnIid ∉ iids map) : lookup (map ++ [entry]) entry.mnIid = some entry := by
  have absent := (lookup_eq_none map entry.mnIid).mpr unknown
  simp only [lookup] at absent
  simp [lookup, List.find?_append, absent]

theorem lookup_append_other (map : List MnidHnp) (entry : MnidHnp) {other : In6Addr}
    (different : other ≠ entry.mnIid) : lookup (map ++ [entry]) other = lookup map other := by
  have missed : entry.mnIid ≠ other := Ne.symm different
  simp [lookup, List.find?_append, missed]

theorem contents_insert {map : List MnidHnp} {mnIid : In6Addr}
    (held : mnIid ∈ iids map ∨ map.length < maxMobiles) (addr : In6Addr) (nai : Nai) :
    contents (pmipInsertIntoHnpCache map mnIid addr nai) =
      Function.update (contents map) mnIid (some (addr, keptNai map mnIid nai)) := by
  funext other
  by_cases known : mnIid ∈ iids map
  · rw [insert_known known]
    obtain ⟨entry, found⟩ := Option.ne_none_iff_exists'.mp
      (mt (lookup_eq_none map mnIid).mp (not_not_intro known))
    by_cases same : other = mnIid
    · subst same
      simp [contents, lookup_setPrefix_self, keptNai, found]
    · rw [Function.update_of_ne same, contents, contents, lookup_setPrefix_other mnIid addr map same]
  · have absent := (lookup_eq_none map mnIid).mpr known
    rw [insert_new known (held.resolve_left known)]
    by_cases same : other = mnIid
    · subst same
      rw [contents, lookup_append_self map ⟨addr, other, nai⟩ known]
      simp [keptNai, absent]
    · rw [Function.update_of_ne same, contents, contents,
        lookup_append_other map ⟨addr, mnIid, nai⟩ same]

theorem lmaMnidHnpMap_eq (map : List MnidHnp) (mnid : In6Addr) :
    lmaMnidHnpMap map mnid = (contents map mnid).map Prod.fst := by
  simp only [lmaMnidHnpMap, contents, Option.map_map]
  rfl

theorem mnNaiHnpMap_eq (map : List MnidHnp) (mnid : In6Addr) :
    mnNaiHnpMap map mnid = ((contents map mnid).map Prod.snd).getD (Octets.zero 63) := by
  simp only [mnNaiHnpMap, contents]
  cases lookup map mnid with
  | none => rfl
  | some entry => rfl

theorem mnidHnpMap_known {map : List MnidHnp} {mnid : In6Addr} {known : In6Addr × Nai}
    (held : contents map mnid = some known) (radius : Option RadiusReply) (mnNai : Nai) :
    mnidHnpMap map radius mnid mnNai = (map, some known) := by
  simp only [contents] at held
  obtain ⟨entry, found, rfl⟩ := Option.map_eq_some_iff.mp held
  simp only [mnidHnpMap, found]

/-! ## What an insertion records -/

/-- The three lookups answer with the inserted prefix and NAI, and every other
identifier's prefix and NAI are as before. -/
def Recorded (map : List MnidHnp) (mnIid addr : In6Addr) (nai : Nai) : Prop :=
  let after := pmipInsertIntoHnpCache map mnIid addr nai
  lmaMnidHnpMap after mnIid = some addr ∧
  mnNaiHnpMap after mnIid = nai ∧
  (∀ radius given, mnidHnpMap after radius mnIid given = (after, some (addr, nai))) ∧
  ∀ other, other ≠ mnIid →
    lmaMnidHnpMap after other = lmaMnidHnpMap map other ∧
    mnNaiHnpMap after other = mnNaiHnpMap map other

theorem recorded_iff_kept {map : List MnidHnp} {mnIid : In6Addr}
    (held : mnIid ∈ iids map ∨ map.length < maxMobiles) (addr : In6Addr) (nai : Nai) :
    Recorded map mnIid addr nai ↔ keptNai map mnIid nai = nai := by
  have updated := contents_insert held addr nai
  have here : contents (pmipInsertIntoHnpCache map mnIid addr nai) mnIid =
      some (addr, keptNai map mnIid nai) := by
    rw [updated, Function.update_self]
  constructor
  · intro recorded
    have answered := recorded.2.1
    rw [mnNaiHnpMap_eq, here] at answered
    exact answered
  · intro kept
    rw [kept] at here
    refine ⟨?_, ?_, fun radius given => mnidHnpMap_known here radius given, ?_⟩
    · rw [lmaMnidHnpMap_eq, here]
      rfl
    · rw [mnNaiHnpMap_eq, here]
      rfl
    · intro other different
      have unchanged : contents (pmipInsertIntoHnpCache map mnIid addr nai) other =
          contents map other := by
        rw [updated, Function.update_of_ne different]
      refine ⟨?_, ?_⟩
      · rw [lmaMnidHnpMap_eq, lmaMnidHnpMap_eq, unchanged]
      · rw [mnNaiHnpMap_eq, mnNaiHnpMap_eq, unchanged]

theorem keptNai_eq_iff (map : List MnidHnp) (mnIid : In6Addr) (nai : Nai) :
    keptNai map mnIid nai = nai ↔ ∀ entry ∈ lookup map mnIid, entry.mnNai = nai := by
  simp only [keptNai]
  cases lookup map mnIid with
  | none => simp
  | some entry => simp

/-- After every history the cache holds each identifier once and fits its table,
and an insertion of a known identifier, or of any identifier while there is room,
is recorded exactly when a known identifier comes with the NAI it already has. -/
theorem insertion_recorded (history : List Insertion) :
    (iids (cacheAfter history)).Nodup ∧ (cacheAfter history).length ≤ maxMobiles ∧
      ∀ mnIid addr nai,
        mnIid ∈ iids (cacheAfter history) ∨ (cacheAfter history).length < maxMobiles →
        (Recorded (cacheAfter history) mnIid addr nai ↔
          ∀ entry ∈ lookup (cacheAfter history) mnIid, entry.mnNai = nai) := by
  have bounded := bounded_cacheAfter history
  refine ⟨bounded.distinct, bounded.fits, fun mnIid addr nai held => ?_⟩
  rw [recorded_iff_kept held addr nai]
  exact keptNai_eq_iff _ mnIid nai

def firstNai : Nai := ⟨1 :: List.replicate 62 0, rfl⟩

def secondNai : Nai := ⟨2 :: List.replicate 62 0, rfl⟩

def registered : List Insertion := [⟨in6addrLoopback, in6addrAny, firstNai⟩]

theorem insertion_recorded_registered :
    Recorded (cacheAfter registered) in6addrLoopback in6addrLoopback firstNai := by
  have known : in6addrLoopback ∈ iids (cacheAfter registered) := by decide
  apply ((insertion_recorded registered).2.2 in6addrLoopback in6addrLoopback firstNai
    (.inl known)).mpr
  intro entry found
  have cached : lookup (cacheAfter registered) in6addrLoopback =
      some ⟨in6addrAny, in6addrLoopback, firstNai⟩ := by decide
  rw [cached] at found
  cases found
  rfl

/-- A known identifier that comes with another NAI keeps the old one. -/
theorem insertion_forgets_nai :
    ¬ ∀ (history : List Insertion) (mnIid addr : In6Addr) (nai : Nai),
      mnIid ∈ iids (cacheAfter history) ∨ (cacheAfter history).length < maxMobiles →
      Recorded (cacheAfter history) mnIid addr nai := by
  intro recorded
  have answered := (recorded registered in6addrLoopback in6addrLoopback secondNai
    (.inl (by decide))).2.1
  revert answered
  decide

def Kept (map : List MnidHnp) (given : Insertion) : Prop :=
  (given.mnIid ∈ iids map ∨ map.length < maxMobiles) ∧
    ∀ entry ∈ lookup map given.mnIid, entry.mnNai = given.nai

def step (map : List MnidHnp) (given : Insertion) : Except Empty (List MnidHnp) :=
  .ok (insertion map given)

def record (book : In6Addr → Option (In6Addr × Nai)) (given : Insertion) :
    In6Addr → Option (In6Addr × Nai) :=
  Function.update book given.mnIid (some (given.addr, given.nai))

/-- A history whose every insertion keeps the NAIs and finds room leaves each
identifier with what was given for it last. -/
theorem contents_history (history : List Insertion) :
    ∀ {map : List MnidHnp}, Runs.Meets step Kept map history →
      contents (history.foldl insertion map) = history.foldl record (contents map) := by
  induction history with
  | nil => exact fun _ => rfl
  | cons given rest ih =>
      intro map meets
      obtain ⟨⟨held, known⟩, later⟩ := meets
      have kept := (keptNai_eq_iff map given.mnIid given.nai).mpr known
      have updated : contents (insertion map given) = record (contents map) given := by
        rw [insertion, contents_insert held, kept, record]
      rw [List.foldl_cons, List.foldl_cons, ← updated]
      exact ih (later (insertion map given) rfl)

end OaiPmip.HnpCache
