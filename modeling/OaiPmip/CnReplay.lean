import OaiPmip.CnAnswers
import OaiPmip.Lib.Runs

/-!
# Replayed binding updates

What keeps an accepted update from being accepted again is the sequence number of
a live entry, or, once the binding is gone, the one home nonce that the entry left
in the cache blocks.  An entry has one sequence number and one nonce, so a later
update can take the guard of an earlier one away; `KeepsGuard` is what an event
must meet not to do so while the nonces of the earlier update are still valid.
-/

set_option autoImplicit false

namespace OaiPmip.Cn

open OaiPmip.Msgs OaiPmip.Runs

def Unforgeable (authentic : Authentic) : Prop :=
  ∀ home careOf home' careOf' k coa coa' mh, authentic home careOf k coa mh = true →
    authentic home' careOf' k coa' mh = true → home = home' ∧ careOf = careOf' ∧ coa = coa'

def stillValid (authentic : Authentic) (s : State) (now : Timespec) (a : Accepted) : Bool :=
  cnBuCheck authentic s now a.bu a.request = some .accepted

def replayable (authentic : Authentic) (w : Node) (now : Timespec) (k : BcKey) : List Accepted :=
  w.accepted.filter fun a => a.bu.key = k ∧ stillValid authentic w.cn now a

section Conditions
variable (earlier : List Accepted)

def NotBehind (seqno : UInt16) : Prop :=
  ∀ a ∈ earlier, mip6SeqGt a.request.seqno seqno = false

def OneNonce (bce : Bcentry) : Prop :=
  ∀ a ∈ earlier, a.request.registers = true → a.request.home = bce.nonceHoa

def NoRegistration : Prop := ∀ a ∈ earlier, a.request.registers = false

instance (seqno : UInt16) : Decidable (NotBehind earlier seqno) :=
  inferInstanceAs (Decidable (∀ a ∈ earlier, mip6SeqGt a.request.seqno seqno = false))

instance (bce : Bcentry) : Decidable (OneNonce earlier bce) :=
  inferInstanceAs (Decidable
    (∀ a ∈ earlier, a.request.registers = true → a.request.home = bce.nonceHoa))

instance : Decidable (NoRegistration earlier) :=
  inferInstanceAs (Decidable (∀ a ∈ earlier, a.request.registers = false))

def UpdateKeeps (q : Request) (memory : Bool) : Option Bcentry → Prop
  | none => q.registers = true → memory = true → NotBehind earlier q.seqno
  | some e =>
      if e.type = .nonceBlock then
        q.registers = true → (mip6SeqGt q.seqno e.seqno = true ∨ e.nonceHoa ≠ q.home) →
          if memory then NotBehind earlier q.seqno else NoRegistration earlier
      else
        mip6SeqGt q.seqno e.seqno = true →
          if q.registers then NotBehind earlier q.seqno else OneNonce earlier e

def ExpiryKeeps (now : Timespec) : Option Bcentry → Prop
  | none => True
  | some e =>
      if e.type = .cached ∨ tsbefore e.expires now = true then True
      else if e.type = .nonceBlock then NoRegistration earlier
      else OneNonce earlier e

instance (q : Request) (memory : Bool) : ∀ bce, Decidable (UpdateKeeps earlier q memory bce)
  | none => inferInstanceAs (Decidable
      (q.registers = true → memory = true → NotBehind earlier q.seqno))
  | some e => inferInstanceAs (Decidable
      (if e.type = .nonceBlock then
        q.registers = true → (mip6SeqGt q.seqno e.seqno = true ∨ e.nonceHoa ≠ q.home) →
          if memory then NotBehind earlier q.seqno else NoRegistration earlier
      else
        mip6SeqGt q.seqno e.seqno = true →
          if q.registers then NotBehind earlier q.seqno else OneNonce earlier e))

instance (now : Timespec) : ∀ bce, Decidable (ExpiryKeeps earlier now bce)
  | none => .isTrue trivial
  | some e => inferInstanceAs (Decidable
      (if e.type = .cached ∨ tsbefore e.expires now = true then True
      else if e.type = .nonceBlock then NoRegistration earlier
      else OneNonce earlier e))

end Conditions

section Keeps
variable (conf : CnConf) (authentic : Authentic) (w : Node)

/-- The event leaves every earlier update of its pair that the check still lets
through with something that keeps it out. -/
def PairKeeps : CnInput → Prop
  | .update now m remoteCoa alloc node =>
      ∀ q ∈ mhBuParse conf.dupBeyond w.cn.bceExists m remoteCoa,
        cnBuCheck authentic w.cn now m q = some .accepted → cnBindingPolGet conf m.key = true →
          UpdateKeeps (replayable authentic w now m.key) q (alloc && node) (w.cn.bcache m.key)
  | .expire now k => ExpiryKeeps (replayable authentic w now k) now (w.cn.bcache k)
  | .testInit _ => True
  | .regen _ _ => True

def KeepsGuard (input : CnInput) : Prop :=
  tsbefore w.clock input.now = false ∧ PairKeeps conf authentic w input

instance : ∀ input, Decidable (PairKeeps conf authentic w input)
  | .update now m remoteCoa alloc node => inferInstanceAs (Decidable
      (∀ q ∈ mhBuParse conf.dupBeyond w.cn.bceExists m remoteCoa,
        cnBuCheck authentic w.cn now m q = some .accepted → cnBindingPolGet conf m.key = true →
          UpdateKeeps (replayable authentic w now m.key) q (alloc && node) (w.cn.bcache m.key)))
  | .expire now k => inferInstanceAs (Decidable
      (ExpiryKeeps (replayable authentic w now k) now (w.cn.bcache k)))
  | .testInit _ => .isTrue trivial
  | .regen _ _ => .isTrue trivial

instance (input : CnInput) : Decidable (KeepsGuard conf authentic w input) :=
  inferInstanceAs (Decidable
    (tsbefore w.clock input.now = false ∧ PairKeeps conf authentic w input))

end Keeps

/-! ## The record of accepted updates -/

def HasLapsed (s : State) (clock : Timespec) (a : Accepted) : Prop :=
  Lapsed s clock a.home ∨ ∃ g, a.careOf = some g ∧ Lapsed s clock g

/-- The nonces that an accepted update used are those of its indices. -/
structure UsedNonces (s : State) (a : Accepted) : Prop where
  home : Traced s a.request.home a.home
  careOf : if a.request.registers then ∃ g, a.careOf = some g ∧ Traced s a.request.careOf g
    else a.careOf = none

/-- What is known of an accepted update: its nonces have lapsed or the entry of
its pair keeps it out. -/
structure Recorded (conf : CnConf) (authentic : Authentic) (w : Node) (a : Accepted) : Prop where
  parsed : ∃ known remoteCoa, mhBuParse conf.dupBeyond known a.bu remoteCoa = some a.request
  genuine : authentic a.home a.careOf a.bu.key a.request.bindCoa (clearCksum a.bu.mh) = true
  isHome : a.request.isHome = false
  nonInd : a.request.nonInd.isSome = true
  hasAuth : a.request.hasAuth = true
  policy : cnBindingPolGet conf a.bu.key = true
  used : UsedNonces w.cn a
  safe : HasLapsed w.cn w.clock a ∨ Guards a.request (w.cn.bcache a.bu.key)

section Record
variable {conf : CnConf} {authentic : Authentic} {w : Node} {a : Accepted} {now : Timespec}

theorem HasLapsed.later {s : State} {clock : Timespec} (lapsed : HasLapsed s clock a)
    (forward : tsbefore clock now = false) : HasLapsed s now a := by
  rcases lapsed with home | ⟨g, isCareOf, careOf⟩
  · exact Or.inl (home.later forward)
  · exact Or.inr ⟨g, isCareOf, careOf.later forward⟩

theorem Ages.used {s s' : State} (ages : Ages s s') (used : UsedNonces s a) : UsedNonces s' a := by
  refine ⟨ages.traced used.home, ?_⟩
  have careOf := used.careOf
  split
  · rename_i registers
    rw [if_pos registers] at careOf
    obtain ⟨g, isCareOf, traced⟩ := careOf
    exact ⟨g, isCareOf, ages.traced traced⟩
  · rename_i leaves
    rwa [if_neg leaves] at careOf

theorem UsedNonces.careOf_traced {s : State} (used : UsedNonces s a) {g : Nat}
    (isCareOf : a.careOf = some g) : Traced s a.request.careOf g := by
  have careOf := used.careOf
  split at careOf
  · obtain ⟨_, same, traced⟩ := careOf
    rw [isCareOf] at same
    cases same
    exact traced
  · rw [isCareOf] at careOf
    cases careOf

theorem Ages.hasLapsed {s s' : State} (ages : Ages s s') {clock : Timespec}
    (used : UsedNonces s a) (lapsed : HasLapsed s clock a) : HasLapsed s' clock a := by
  rcases lapsed with home | ⟨g, isCareOf, careOf⟩
  · exact Or.inl (ages.lapsed used.home home)
  · exact Or.inr ⟨g, isCareOf, ages.lapsed (used.careOf_traced isCareOf) careOf⟩

theorem Recorded.stillValid (recorded : Recorded conf authentic w a)
    (running : ¬ HasLapsed w.cn now a) : stillValid authentic w.cn now a = true := by
  obtain ⟨homeRunning, careOfRunning⟩ := not_or.mp running
  obtain ⟨n, validated, isHome⟩ := recorded.used.home.validates homeRunning
  have nonces : kbmNonces w.cn now a.request (a.request.nonInd.getD (0, 0)) =
      .ok (a.home, a.careOf) := by
    refine kbmNonces_ok_iff.mpr ⟨⟨n, validated, isHome⟩, ?_⟩
    have careOf := recorded.used.careOf
    split
    · rename_i registers
      rw [if_pos registers] at careOf
      obtain ⟨g, isCareOf, traced⟩ := careOf
      obtain ⟨n', validated', isNonce⟩ := traced.validates fun lapsed =>
        careOfRunning ⟨g, isCareOf, lapsed⟩
      exact ⟨n', validated', by rw [isCareOf, isNonce]⟩
    · rename_i leaves
      rwa [if_neg leaves] at careOf
  have checked := cnBuCheck_accepted_iff.mpr ⟨recorded.isHome, recorded.nonInd, recorded.hasAuth,
    a.home, a.careOf, nonces, recorded.genuine⟩
  simpa [Cn.stillValid] using checked

theorem Recorded.replayed (recorded : Recorded conf authentic w a)
    (unforgeable : Unforgeable authentic) {remoteCoa : Option In6Addr} {q : Request}
    (parsed : mhBuParse conf.dupBeyond w.cn.bceExists a.bu remoteCoa = some q)
    (checked : cnBuCheck authentic w.cn now a.bu q = some .accepted) :
    q = a.request ∧ ¬ HasLapsed w.cn now a := by
  obtain ⟨_, _, _, home, careOf, nonces, genuine⟩ := cnBuCheck_accepted_iff.mp checked
  obtain ⟨rfl, rfl, sameCoa⟩ := unforgeable _ _ _ _ _ _ _ _ genuine recorded.genuine
  obtain ⟨known, remoteCoa', before⟩ := recorded.parsed
  obtain rfl := mhBuParse_agree parsed before sameCoa
  obtain ⟨⟨n, validated, isHome⟩, careOfNonce⟩ := kbmNonces_ok_iff.mp nonces
  refine ⟨rfl, ?_⟩
  intro either
  rcases either with lapsed | ⟨g, isCareOf, lapsed⟩
  · rw [← isHome] at lapsed
    exact not_lapsed_of_validated validated lapsed
  · rw [isCareOf] at careOfNonce
    split at careOfNonce
    · obtain ⟨n', validated', same⟩ := careOfNonce
      cases same
      exact not_lapsed_of_validated validated' lapsed
    · cases careOfNonce

theorem Recorded.lapsed_or {property : Accepted → Prop} (recorded : Recorded conf authentic w a)
    (member : a ∈ w.accepted) {k : BcKey} (isKey : a.bu.key = k)
    (all : ∀ a ∈ replayable authentic w now k, property a) :
    HasLapsed w.cn now a ∨ property a := by
  by_cases lapsed : HasLapsed w.cn now a
  · exact Or.inl lapsed
  · have running := recorded.stillValid lapsed
    exact Or.inr (all a (List.mem_filter.mpr ⟨member, by simp [isKey, running]⟩))

theorem Recorded.put (recorded : Recorded conf authentic w a)
    (forward : tsbefore w.clock now = false) {k : BcKey} {e : Option Bcentry}
    (more : List Accepted)
    (guarded : a.bu.key = k → HasLapsed w.cn now a ∨ Guards a.request e) :
    Recorded conf authentic ⟨w.cn.put k e, now, more⟩ a := by
  refine { recorded with used := (put_ages w.cn k e).used recorded.used, safe := ?_ }
  by_cases here : a.bu.key = k
  · rcases guarded here with lapsed | guards
    · exact Or.inl lapsed
    · refine Or.inr ?_
      simpa [State.put, here] using guards
  · rcases recorded.safe with lapsed | guards
    · exact Or.inl (lapsed.later forward)
    · refine Or.inr ?_
      simpa [State.put, here] using guards

theorem Recorded.retired (recorded : Recorded conf authentic w a) (member : a ∈ w.accepted)
    (forward : tsbefore w.clock now = false) {k : BcKey} {e : Bcentry} (isKey : a.bu.key = k)
    (present : w.cn.bcache k = some e) (live : e.type = .cached ∨ e.type = .cacheDying)
    (oneNonce : OneNonce (replayable authentic w now k) e) :
    HasLapsed w.cn now a ∨ Guards a.request (Cn.retired w.cn e) := by
  by_cases lapsed : HasLapsed w.cn now a
  · exact Or.inl lapsed
  have notBlocked : e.type ≠ .nonceBlock := by
    rcases live with isType | isType <;> simp [isType]
  have guards : mip6SeqGt a.request.seqno e.seqno = false := by
    rcases recorded.safe with before | guards
    · exact absurd (before.later forward) lapsed
    · rw [isKey, present] at guards
      simpa [Guards, notBlocked] using guards
  refine Or.inr ?_
  rw [Cn.retired, if_pos live]
  cases registers : a.request.registers with
  | false =>
      cases rrCnNonceLft w.cn e.nonceHoa with
      | none => exact registers
      | some minlft => simp [Guards, registers]
  | true =>
      have sameNonce := (recorded.lapsed_or member isKey oneNonce).resolve_left lapsed registers
      obtain ⟨n, validated, _⟩ := recorded.used.home.validates (not_or.mp lapsed).1
      obtain ⟨holder, index, _⟩ := validateNonce_eq_some.mp validated
      have found : rrCnNonceLft w.cn e.nonceHoa = some n.validUntil := by
        rw [← sameNonce, rrCnNonceLft, getNonce, holder, if_pos index]
        rfl
      rw [found]
      simp [Guards, guards, sameNonce]

end Record

/-! ## Steps and runs -/

structure NodeOk (conf : CnConf) (authentic : Authentic) (w : Node) : Prop where
  epoch : tsafter ⟨0, 0⟩ w.clock = true
  nonces : NoncesOk w.cn
  types : ∀ k e, w.cn.bcache k = some e →
    e.type = .cached ∨ e.type = .cacheDying ∨ e.type = .nonceBlock
  recorded : ∀ a ∈ w.accepted, Recorded conf authentic w a
  once : (w.accepted.map Accepted.bu).Nodup

section Steps
variable {conf : CnConf} {authentic : Authentic} {w : Node} {now : Timespec}

theorem nodeOk_init : NodeOk conf authentic Node.init where
  epoch := by decide
  nonces := ⟨by decide, by decide⟩
  types := by
    intro k e found
    cases found
  recorded := by
    intro a member
    cases member
  once := List.nodup_nil

theorem NodeOk.ages (ok : NodeOk conf authentic w) (forward : tsbefore w.clock now = false)
    {s : State} (ages : Ages w.cn s) (cache : s.bcache = w.cn.bcache) (nonces : NoncesOk s) :
    NodeOk conf authentic { w with cn := s, clock := now } where
  epoch := tsafter_of_later ok.epoch forward
  nonces := nonces
  types := by
    intro k e found
    exact ok.types k e (cache ▸ found)
  recorded := by
    intro a member
    have recorded := ok.recorded a member
    refine { recorded with used := ages.used recorded.used, safe := ?_ }
    rcases recorded.safe with lapsed | guards
    · exact Or.inl (ages.hasLapsed recorded.used (lapsed.later forward))
    · refine Or.inr ?_
      rw [cache]
      exact guards
  once := ok.once

theorem NodeOk.tick (ok : NodeOk conf authentic w) (forward : tsbefore w.clock now = false) :
    NodeOk conf authentic { w with clock := now } :=
  ok.ages forward (Ages.refl w.cn) rfl ok.nonces

theorem NodeOk.put (ok : NodeOk conf authentic w) (forward : tsbefore w.clock now = false)
    {k : BcKey} {e : Option Bcentry}
    (types : ∀ bce, e = some bce →
      bce.type = .cached ∨ bce.type = .cacheDying ∨ bce.type = .nonceBlock)
    (guarded : ∀ a ∈ w.accepted, a.bu.key = k → HasLapsed w.cn now a ∨ Guards a.request e) :
    NodeOk conf authentic { w with cn := w.cn.put k e, clock := now } where
  epoch := tsafter_of_later ok.epoch forward
  nonces := ⟨ok.nonces.below, ok.nonces.distinct⟩
  types := by
    intro other bce found
    change Function.update w.cn.bcache k e other = some bce at found
    by_cases here : other = k
    · rw [here, Function.update_self] at found
      exact types bce found
    · rw [Function.update_of_ne here] at found
      exact ok.types other bce found
  recorded := fun a member =>
    (ok.recorded a member).put forward w.accepted (guarded a member)
  once := ok.once

theorem NodeOk.expire (ok : NodeOk conf authentic w) (forward : tsbefore w.clock now = false)
    {k : BcKey} {e : Bcentry} (present : w.cn.bcache k = some e)
    (due : tsbefore e.expires now = false)
    (keeps : ExpiryKeeps (replayable authentic w now k) now (some e)) :
    NodeOk conf authentic { w with cn := Cn.expire w.cn now k e, clock := now } := by
  simp only [Cn.expire]
  by_cases cached : e.type = .cached
  · rw [if_pos cached]
    refine ok.put forward (fun bce same => ?_) fun a member isKey => ?_
    · cases same
      exact Or.inr (Or.inl rfl)
    · rcases (ok.recorded a member).safe with lapsed | guards
      · exact Or.inl (lapsed.later forward)
      · rw [isKey, present] at guards
        simpa [Guards, cached] using Or.inr guards
  · rw [if_neg cached, bceDelete_eq]
    simp only [ExpiryKeeps, cached, due, Bool.false_eq_true, or_self, if_false] at keeps
    refine ok.put forward (fun bce left => Or.inr (Or.inr (retired_type left)))
      fun a member isKey => ?_
    by_cases blocked : e.type = .nonceBlock
    · rw [if_pos blocked] at keeps
      rw [retired, if_neg (by simp [blocked])]
      exact (ok.recorded a member).lapsed_or member isKey keeps
    · rw [if_neg blocked] at keeps
      have live : e.type = .cached ∨ e.type = .cacheDying := by
        rcases ok.types k e present with isType | isType | isType
        · exact Or.inl isType
        · exact Or.inr isType
        · exact absurd isType blocked
      exact (ok.recorded a member).retired member forward isKey present live keeps

theorem mip6SeqGt_self (x : UInt16) : mip6SeqGt x x = false := by
  simp [mip6SeqGt]

theorem UpdateKeeps.notBehind {earlier : List Accepted} {q : Request} {memory : Bool}
    {bce : Option Bcentry} (keeps : UpdateKeeps earlier q memory bce)
    (registers : q.registers = true) (unguarded : ¬ Guards q bce)
    (room : memory = true ∨ ∃ e, bce = some e ∧ e.type ≠ .nonceBlock) :
    NotBehind earlier q.seqno := by
  cases bce with
  | none =>
      rcases room with memory | ⟨_, missing, _⟩
      · exact keeps registers memory
      · cases missing
  | some e =>
      by_cases blocked : e.type = .nonceBlock
      · simp only [UpdateKeeps, if_pos blocked] at keeps
        simp only [Guards, if_pos blocked, registers, forall_const, not_and_or,
          Bool.not_eq_false] at unguarded
        have memory : memory = true := by
          rcases room with memory | ⟨_, same, live⟩
          · exact memory
          · cases same
            exact absurd blocked live
        simpa [memory] using keeps registers unguarded
      · simp only [UpdateKeeps, if_neg blocked] at keeps
        simp only [Guards, if_neg blocked, Bool.not_eq_false] at unguarded
        simpa [registers] using keeps unguarded

theorem NodeOk.newRecord (ok : NodeOk conf authentic w) (forward : tsbefore w.clock now = false)
    {m : Bu} {remoteCoa : Option In6Addr} {q : Request}
    (parsed : mhBuParse conf.dupBeyond w.cn.bceExists m remoteCoa = some q)
    (checked : cnBuCheck authentic w.cn now m q = some .accepted)
    (policy : cnBindingPolGet conf m.key = true) {e : Option Bcentry} (guards : Guards q e)
    (more : List Accepted) :
    ∃ a, acceptance conf w.cn now m remoteCoa = some a ∧ a.bu = m ∧
      Recorded conf authentic ⟨w.cn.put m.key e, now, more⟩ a := by
  obtain ⟨isHome, nonInd, hasAuth, home, careOf, nonces, genuine⟩ :=
    cnBuCheck_accepted_iff.mp checked
  obtain ⟨⟨n, validated, isNonce⟩, careOfNonce⟩ := kbmNonces_ok_iff.mp nonces
  have epoch := tsafter_of_later ok.epoch forward
  have taken : acceptance conf w.cn now m remoteCoa = some ⟨m, q, home, careOf⟩ := by
    rw [acceptance, parsed]
    dsimp only
    rw [nonces]
  have used : UsedNonces w.cn ⟨m, q, home, careOf⟩ := by
    constructor
    · exact isNonce ▸ ok.nonces.traced epoch validated
    · dsimp only
      split
      · rename_i registers
        rw [if_pos registers] at careOfNonce
        obtain ⟨n', validated', isCareOf⟩ := careOfNonce
        exact ⟨_, isCareOf, ok.nonces.traced epoch validated'⟩
      · rename_i leaves
        rwa [if_neg leaves] at careOfNonce
  refine ⟨_, taken, rfl, ?_⟩
  exact {
    parsed := ⟨_, _, parsed⟩
    genuine := genuine
    isHome := isHome
    nonInd := nonInd
    hasAuth := hasAuth
    policy := policy
    used := (put_ages w.cn m.key e).used used
    safe := Or.inr (by simpa [State.put] using guards) }

theorem NodeOk.notBefore (ok : NodeOk conf authentic w) (forward : tsbefore w.clock now = false)
    (unforgeable : Unforgeable authentic) {m : Bu} {remoteCoa : Option In6Addr} {q : Request}
    (parsed : mhBuParse conf.dupBeyond w.cn.bceExists m remoteCoa = some q)
    (checked : cnBuCheck authentic w.cn now m q = some .accepted)
    (unguarded : ¬ Guards q (w.cn.bcache m.key)) : m ∉ w.accepted.map Accepted.bu := by
  intro before
  obtain ⟨a, member, rfl⟩ := List.mem_map.mp before
  have recorded := ok.recorded a member
  obtain ⟨rfl, running⟩ := recorded.replayed unforgeable parsed checked
  rcases recorded.safe with lapsed | guards
  · exact running (lapsed.later forward)
  · exact unguarded guards

theorem NodeOk.accept (ok : NodeOk conf authentic w) (forward : tsbefore w.clock now = false)
    (unforgeable : Unforgeable authentic) {m : Bu} {remoteCoa : Option In6Addr} {q : Request}
    (parsed : mhBuParse conf.dupBeyond w.cn.bceExists m remoteCoa = some q)
    (checked : cnBuCheck authentic w.cn now m q = some .accepted)
    (policy : cnBindingPolGet conf m.key = true) (unguarded : ¬ Guards q (w.cn.bcache m.key))
    {e : Option Bcentry}
    (types : ∀ bce, e = some bce →
      bce.type = .cached ∨ bce.type = .cacheDying ∨ bce.type = .nonceBlock)
    (guards : Guards q e)
    (guarded : ∀ a ∈ w.accepted, a.bu.key = m.key → HasLapsed w.cn now a ∨ Guards a.request e) :
    NodeOk conf authentic ⟨w.cn.put m.key e, now,
      (acceptance conf w.cn now m remoteCoa).toList ++ w.accepted⟩ := by
  obtain ⟨a, taken, isMessage, recorded⟩ :=
    ok.newRecord forward parsed checked policy guards
      ((acceptance conf w.cn now m remoteCoa).toList ++ w.accepted)
  have put := ok.put forward types guarded
  rw [taken] at recorded ⊢
  refine ⟨put.epoch, put.nonces, put.types, fun other member => ?_, ?_⟩
  · rcases List.mem_cons.mp member with rfl | earlier
    · exact recorded
    · exact (ok.recorded other earlier).put forward _ (guarded other earlier)
  · refine List.nodup_cons.mpr ⟨?_, ok.once⟩
    rw [isMessage]
    exact ok.notBefore forward unforgeable parsed checked unguarded

theorem NodeOk.answered (ok : NodeOk conf authentic w) (forward : tsbefore w.clock now = false)
    (unforgeable : Unforgeable authentic) {m : Bu} {remoteCoa : Option In6Addr} {q : Request}
    {memory : Bool} (parsed : mhBuParse conf.dupBeyond w.cn.bceExists m remoteCoa = some q)
    (checked : cnBuCheck authentic w.cn now m q = some .accepted)
    (keeps : cnBindingPolGet conf m.key = true →
      UpdateKeeps (replayable authentic w now m.key) q memory (w.cn.bcache m.key))
    {e : Option Bcentry} {status : BasStatus}
    (answered : Answered conf w.cn now m.key q memory e status) :
    NodeOk conf authentic ⟨w.cn.put m.key e, now,
      (if some status = some .accepted then (acceptance conf w.cn now m remoteCoa).toList else []) ++
        w.accepted⟩ := by
  cases answered with
  | kept _ refused =>
      rw [if_neg (by simpa using refused), put_self]
      exact ok.tick forward
  | prohibited _ policy types =>
      rw [if_neg (by simp)]
      refine ok.put forward (fun bce left => Or.inr (Or.inr (types bce left)))
        fun a member isKey => ?_
      -- nothing was accepted from such a pair
      have allowed := (ok.recorded a member).policy
      rw [isKey, policy] at allowed
      cases allowed
  | bound policy registers unguarded room =>
      rw [if_pos rfl]
      have notBehind := (keeps policy).notBehind registers unguarded room
      refine ok.accept forward unforgeable parsed checked policy unguarded (fun bce same => ?_) ?_
        fun a member isKey => ?_
      · cases same
        exact Or.inl rfl
      · exact mip6SeqGt_self q.seqno
      · exact (ok.recorded a member).lapsed_or member isKey notBehind
  | crowded bce policy registers present blocked unguarded full =>
      rw [if_neg (by simp)]
      have keeps := keeps policy
      rw [present] at keeps unguarded
      simp only [UpdateKeeps, if_pos blocked, full, Bool.false_eq_true, if_false] at keeps
      simp only [Guards, if_pos blocked, registers, forall_const, not_and_or,
        Bool.not_eq_false] at unguarded
      refine ok.put forward (fun bce none => by cases none) fun a member isKey => ?_
      exact (ok.recorded a member).lapsed_or member isKey (keeps registers unguarded)
  | unbound bce policy leaves present live unguarded =>
      rw [if_pos rfl]
      have keeps := keeps policy
      have isLive : bce.type = .cached ∨ bce.type = .cacheDying := by
        rcases ok.types _ bce present with isType | isType | isType
        · exact Or.inl isType
        · exact Or.inr isType
        · exact absurd isType live
      have oneNonce : OneNonce (replayable authentic w now m.key) bce := by
        rw [present] at keeps unguarded
        simp only [UpdateKeeps, if_neg live, leaves, Bool.false_eq_true, if_false] at keeps
        simp only [Guards, if_neg live, Bool.not_eq_false] at unguarded
        exact keeps unguarded
      refine ok.accept forward unforgeable parsed checked policy unguarded
        (fun bce left => Or.inr (Or.inr (retired_type left))) ?_ fun a member isKey => ?_
      · rw [retired, if_pos isLive]
        cases rrCnNonceLft w.cn bce.nonceHoa with
        | none => exact leaves
        | some minlft => simp [Guards, leaves]
      · exact (ok.recorded a member).retired member forward isKey present isLive oneNonce

theorem NodeOk.update (ok : NodeOk conf authentic w) (forward : tsbefore w.clock now = false)
    (unforgeable : Unforgeable authentic) {m : Bu} {remoteCoa : Option In6Addr}
    {alloc node : Bool}
    (keeps : PairKeeps conf authentic w (.update now m remoteCoa alloc node)) {w' : Node}
    (taken : w.step conf authentic (.update now m remoteCoa alloc node) = .ok w') :
    NodeOk conf authentic w' := by
  have isNext : w' = ⟨(cnRecvBu conf authentic w.cn now m remoteCoa alloc node).1, now,
      (if (cnRecvBu conf authentic w.cn now m remoteCoa alloc node).2 = some .accepted then
        (acceptance conf w.cn now m remoteCoa).toList else []) ++ w.accepted⟩ := by
    cases taken
    rfl
  rw [isNext]
  by_cases through : ∃ q, mhBuParse conf.dupBeyond w.cn.bceExists m remoteCoa = some q ∧
      cnBuCheck authentic w.cn now m q = some .accepted
  · obtain ⟨q, parsed, checked⟩ := through
    have answers : Answers conf w.cn now m.key q (alloc && node)
        (cnRecvBu conf authentic w.cn now m remoteCoa alloc node) := cnRecvBu_answers parsed checked
    obtain ⟨e, status, result, answered⟩ := answers
    rw [result]
    exact ok.answered forward unforgeable parsed checked (keeps q parsed checked) answered
  · have unchanged : (cnRecvBu conf authentic w.cn now m remoteCoa alloc node).1 = w.cn ∧
        (cnRecvBu conf authentic w.cn now m remoteCoa alloc node).2 ≠ some .accepted :=
      cnRecvBu_refused fun q parsed checked => through ⟨q, parsed, checked⟩
    rw [unchanged.1, if_neg unchanged.2]
    exact ok.tick forward

theorem NodeOk.step (ok : NodeOk conf authentic w) (unforgeable : Unforgeable authentic)
    {input : CnInput} (keeps : KeepsGuard conf authentic w input) {w' : Node}
    (taken : w.step conf authentic input = .ok w') : NodeOk conf authentic w' := by
  obtain ⟨forward, keeps⟩ := keeps
  cases input with
  | update now m remoteCoa alloc node => exact ok.update forward unforgeable keeps taken
  | expire now k =>
      simp only [Node.step] at taken
      split at taken
      · cases taken
        exact ok.tick forward
      · rename_i e present
        split at taken
        · cases taken
          exact ok.tick forward
        · rename_i due
          cases taken
          simp only [PairKeeps, present] at keeps
          have isDue : tsbefore e.expires now = false := by simpa using due
          exact ok.expire forward present isDue keeps
  | testInit now =>
      simp only [Node.step] at taken
      split at taken
      · cases taken
      · rename_i s asked
        cases taken
        obtain ⟨ages, cache, nonces⟩ := rrCnKeygenToken_ages ok.nonces asked
        exact ok.ages forward ages cache nonces
  | regen now i =>
      simp only [Node.step] at taken
      split at taken
      · cases taken
        exact ok.ages forward (nonceRegen_ages w.cn i) rfl (ok.nonces.regen i)
      · cases taken
        exact ok.tick forward

end Steps

def digest (home : Nat) (careOf : Option Nat) (coa : In6Addr) : List UInt8 :=
  UInt8.ofNat home :: ((careOf.map fun c => UInt8.ofNat (c + 1)).getD 0) :: coa.bytes.drop 6

/-- Authenticators that spell the nonces and the care-of address out, for small nonces and
addresses of one prefix. -/
def spelled : Authentic := fun home careOf _ coa mh =>
  home < 256 ∧ (∀ c ∈ careOf, c < 255) ∧ coa.bytes.take 6 = [0x20, 1, 0, 0, 0, 0] ∧
    mh.drop 20 = digest home careOf coa

theorem unforgeable_spelled : Unforgeable spelled := by
  intro home careOf home' careOf' k coa coa' mh first second
  simp only [spelled, decide_eq_true_eq] at first second
  obtain ⟨small, smallCareOf, net, read⟩ := first
  obtain ⟨small', smallCareOf', net', read'⟩ := second
  rw [read, digest, digest] at read'
  obtain ⟨sameHome, rest⟩ := List.cons.inj read'
  obtain ⟨sameCareOf, sameRest⟩ := List.cons.inj rest
  have byte : ∀ x y : Nat, x < 256 → y < 256 → UInt8.ofNat x = UInt8.ofNat y → x = y := by
    intro x y hx hy same
    have values := congrArg UInt8.toNat same
    rwa [UInt8.toNat_ofNat_of_lt' hx, UInt8.toNat_ofNat_of_lt' hy] at values
  refine ⟨byte _ _ small small' sameHome, ?_, ?_⟩
  · cases careOf with
    | none =>
        cases careOf' with
        | none => rfl
        | some c' =>
            have bound := smallCareOf' c' rfl
            have := byte 0 (c' + 1) (by omega) (by omega) sameCareOf
            omega
    | some c =>
        have bound := smallCareOf c rfl
        cases careOf' with
        | none =>
            have := byte (c + 1) 0 (by omega) (by omega) sameCareOf
            omega
        | some c' =>
            have bound' := smallCareOf' c' rfl
            have := byte (c + 1) (c' + 1) (by omega) (by omega) sameCareOf
            simp only [Option.some.injEq]
            omega
  · apply Octets.ext_bytes
    rw [← List.take_append_drop 6 coa.bytes, ← List.take_append_drop 6 coa'.bytes, net, net',
      sameRest]

def nodeAddr (last : UInt8) : In6Addr := ⟨[0x20, 1, 0, 0, 0, 0, 0, 0, 0, 0, 0, 0, 0, 0, 0, last], rfl⟩

def sampleBu (seqno home careOf : UInt8) (lifetime : UInt8) (auth : List UInt8) : Bu where
  mh := [59, 3, 5, 0, 0, 0, 0, seqno, 0x80, 0, 0, lifetime, 4, 4, 0, home, 0, careOf, 5, 12] ++ auth
  src := nodeAddr 1
  dst := nodeAddr 9

def sampleConf : CnConf := ⟨true, [], fun _ => false⟩

def firstBu : Bu := sampleBu 1 1 1 100 (digest 0 (some 0) (nodeAddr 2))

/-- In every run whose events meet the condition, no message of a pair is accepted
twice. -/
theorem updates_accepted_once (conf : CnConf) (authentic : Authentic)
    (unforgeable : Unforgeable authentic) (inputs : List CnInput) (final : Node)
    (meets : Meets (Node.step conf authentic) (KeepsGuard conf authentic) Node.init inputs)
    (success : run (Node.step conf authentic) Node.init inputs = .ok final) :
    (final.accepted.map Accepted.bu).Nodup := by
  have kept : ∀ w input w', NodeOk conf authentic w → KeepsGuard conf authentic w input →
      w.step conf authentic input = .ok w' → NodeOk conf authentic w' :=
    fun w input w' ok keeps taken => ok.step unforgeable keeps taken
  exact (run_invariant kept nodeOk_init meets success).once

/-- Registered twice and deregistered with one nonce: the first registration is
kept out afterwards. -/
theorem updates_accepted_once_blocked :
    ∃ final, run (Node.step sampleConf spelled) Node.init
        [.testInit ⟨100, 0⟩,
          .update ⟨101, 0⟩ firstBu (some (nodeAddr 2)) true true,
          .update ⟨102, 0⟩ (sampleBu 2 1 1 100 (digest 0 (some 0) (nodeAddr 2))) (some (nodeAddr 2))
            true true,
          .update ⟨103, 0⟩ (sampleBu 3 1 0 0 (digest 0 none (nodeAddr 1))) none true true,
          .update ⟨104, 0⟩ firstBu (some (nodeAddr 2)) true true] = .ok final ∧
      final.accepted.length = 3 ∧ (final.accepted.map Accepted.bu).Nodup := by
  refine ⟨_, rfl, by decide +kernel, ?_⟩
  exact updates_accepted_once sampleConf spelled unforgeable_spelled
    [.testInit ⟨100, 0⟩,
      .update ⟨101, 0⟩ firstBu (some (nodeAddr 2)) true true,
      .update ⟨102, 0⟩ (sampleBu 2 1 1 100 (digest 0 (some 0) (nodeAddr 2))) (some (nodeAddr 2))
        true true,
      .update ⟨103, 0⟩ (sampleBu 3 1 0 0 (digest 0 none (nodeAddr 1))) none true true,
      .update ⟨104, 0⟩ firstBu (some (nodeAddr 2)) true true] _ (by decide +kernel) rfl

/-- Registered with one nonce, registered again with the next one, deregistered:
the first registration is accepted once more. -/
theorem first_update_replayed :
    Unforgeable spelled ∧ ∃ final, run (Node.step sampleConf spelled) Node.init
        [.testInit ⟨100, 0⟩,
          .update ⟨101, 0⟩ firstBu (some (nodeAddr 2)) true true,
          .testInit ⟨131, 0⟩,
          .update ⟨132, 0⟩ (sampleBu 2 2 2 100 (digest 1 (some 1) (nodeAddr 2))) (some (nodeAddr 2))
            true true,
          .update ⟨133, 0⟩ (sampleBu 3 2 0 0 (digest 1 none (nodeAddr 1))) none true true,
          .update ⟨134, 0⟩ firstBu (some (nodeAddr 2)) true true] = .ok final ∧
      final.accepted.length = 4 ∧ ¬ (final.accepted.map Accepted.bu).Nodup := by
  refine ⟨unforgeable_spelled, _, rfl, ?_, ?_⟩
  · decide +kernel
  · decide +kernel

end OaiPmip.Cn
