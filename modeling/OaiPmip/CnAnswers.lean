import OaiPmip.Cn

/-!
# Nonces and answers of the correspondent node

How nonces age, when the check of an update succeeds, and what an update that it
lets through does to the entry of its pair: one case for each way through
`cn_recv_bu`.  `Guards` says when an entry keeps an update out.
-/

set_option autoImplicit false

namespace OaiPmip.Cn

open OaiPmip.Msgs

def Request.registers (q : Request) : Bool := tsisset q.lifetime

def Request.home (q : Request) : UInt16 := (q.nonInd.getD (0, 0)).1

def Request.careOf (q : Request) : UInt16 := (q.nonInd.getD (0, 0)).2

theorem tssub_neg_iff (a b : Timespec) : (tssub a b).tvSec < 0 ↔ tsafter a b = true := by
  simp only [tssub, tsafter, timeSecNsec]
  split <;> split <;> simp <;> omega

theorem tsafter_of_later {time clock now : Timespec} (passed : tsafter time clock = true)
    (forward : tsbefore clock now = false) : tsafter time now = true := by
  simp only [tsafter, tsbefore] at *
  split at passed <;> split at forward <;> split <;> simp_all <;> omega

theorem tsisset_of_after {time now : Timespec} (epoch : tsafter ⟨0, 0⟩ now = true)
    (ahead : tsafter time now = false) : tsisset time = true := by
  by_contra unset
  have zero : time = ⟨0, 0⟩ := by
    simp only [tsisset] at unset
    cases time
    simpa using unset
  rw [zero, epoch] at ahead
  cases ahead

structure NoncesOk (s : State) : Prop where
  below : ∀ i, (s.nonces i).nonce < s.drawn
  distinct : ∀ i j, (s.nonces i).nonce = (s.nonces j).nonce → i = j

/-- A nonce that was used under an index is found there or nowhere. -/
structure Traced (s : State) (idx : UInt16) (g : Nat) : Prop where
  below : g < s.drawn
  found : ∀ i, (s.nonces i).nonce = g →
    i = slot idx ∧ (s.nonces i).nonceIndex = idx ∧ tsisset (s.nonces i).validUntil = true

def Lapsed (s : State) (clock : Timespec) (g : Nat) : Prop :=
  ∀ i, (s.nonces i).nonce = g → tsafter (s.nonces i).validUntil clock = true

theorem Lapsed.later {s : State} {clock now : Timespec} {g : Nat} (lapsed : Lapsed s clock g)
    (forward : tsbefore clock now = false) : Lapsed s now g :=
  fun i holds => tsafter_of_later (lapsed i holds) forward

theorem validateNonce_eq_some {s : State} {now : Timespec} {idx : UInt16} {n : NonceHolder} :
    validateNonce s now idx = some n ↔ s.nonces (slot idx) = n ∧ n.nonceIndex = idx ∧
      tsafter n.validUntil now = false := by
  simp only [validateNonce, getNonce]
  by_cases here : (s.nonces (slot idx)).nonceIndex = idx
  · rw [if_pos here]
    dsimp only
    by_cases passed : (tssub (s.nonces (slot idx)).validUntil now).tvSec < 0
    · have after := (tssub_neg_iff _ _).mp passed
      rw [if_pos passed]
      refine ⟨fun missing => (by cases missing), ?_⟩
      intro given
      obtain ⟨rfl, _, ahead⟩ := given
      rw [after] at ahead
      cases ahead
    · have ahead : tsafter (s.nonces (slot idx)).validUntil now = false := by
        rw [← Bool.not_eq_true, ← tssub_neg_iff]
        exact passed
      rw [if_neg passed, Option.some.injEq]
      refine ⟨?_, fun holds => holds.1⟩
      intro same
      subst same
      exact ⟨rfl, here, ahead⟩
  · rw [if_neg here]
    refine ⟨fun missing => (by cases missing), ?_⟩
    intro given
    obtain ⟨rfl, same, _⟩ := given
    exact absurd same here

theorem NoncesOk.traced {s : State} (ok : NoncesOk s) {now : Timespec}
    (epoch : tsafter ⟨0, 0⟩ now = true) {idx : UInt16} {n : NonceHolder}
    (validated : validateNonce s now idx = some n) : Traced s idx n.nonce := by
  obtain ⟨rfl, index, ahead⟩ := validateNonce_eq_some.mp validated
  refine ⟨ok.below _, fun i same => ?_⟩
  obtain rfl := ok.distinct i (slot idx) same
  exact ⟨rfl, index, tsisset_of_after epoch ahead⟩

theorem not_lapsed_of_validated {s : State} {now : Timespec} {idx : UInt16} {n : NonceHolder}
    (validated : validateNonce s now idx = some n) : ¬ Lapsed s now n.nonce := by
  obtain ⟨rfl, _, ahead⟩ := validateNonce_eq_some.mp validated
  intro lapsed
  have after := lapsed _ rfl
  rw [ahead] at after
  cases after

theorem Traced.validates {s : State} {now : Timespec} {idx : UInt16} {g : Nat}
    (traced : Traced s idx g) (running : ¬ Lapsed s now g) :
    ∃ n, validateNonce s now idx = some n ∧ n.nonce = g := by
  obtain ⟨i, running⟩ := not_forall.mp running
  obtain ⟨holds, ahead⟩ := Classical.not_imp.mp running
  obtain ⟨rfl, index, _⟩ := traced.found i holds
  exact ⟨_, validateNonce_eq_some.mpr ⟨rfl, index, by simpa using ahead⟩, holds⟩

/-- What becomes of the nonces: each is kept, gets its lifetime or is drawn anew. -/
structure Ages (s s' : State) : Prop where
  drawn : s.drawn ≤ s'.drawn
  holders : ∀ i, s'.nonces i = s.nonces i ∨ s.drawn ≤ (s'.nonces i).nonce ∨
    ((s'.nonces i).nonce = (s.nonces i).nonce ∧ tsisset (s.nonces i).validUntil = false)

theorem Ages.refl (s : State) : Ages s s := ⟨le_refl _, fun _ => Or.inl rfl⟩

theorem Ages.trans {first second third : State} (before : Ages first second)
    (after : Ages second third) : Ages first third := by
  refine ⟨before.drawn.trans after.drawn, fun i => ?_⟩
  rcases after.holders i with same | fresh | ⟨sameNonce, unset⟩
  · rw [same]
    exact before.holders i
  · exact Or.inr (Or.inl (before.drawn.trans fresh))
  · rcases before.holders i with same | fresh | ⟨sameBefore, unsetBefore⟩
    · rw [same] at sameNonce unset
      exact Or.inr (Or.inr ⟨sameNonce, unset⟩)
    · exact Or.inr (Or.inl (by rw [sameNonce]; exact fresh))
    · exact Or.inr (Or.inr ⟨sameNonce.trans sameBefore, unsetBefore⟩)

theorem Ages.holder {s s' : State} (ages : Ages s s') {idx : UInt16} {g : Nat}
    (traced : Traced s idx g) {i : Fin 16} (holds : (s'.nonces i).nonce = g) :
    s'.nonces i = s.nonces i := by
  rcases ages.holders i with same | fresh | ⟨sameNonce, unset⟩
  · exact same
  · have := traced.below
    omega
  · have set := (traced.found i (sameNonce.symm.trans holds)).2.2
    rw [unset] at set
    cases set

theorem Ages.traced {s s' : State} (ages : Ages s s') {idx : UInt16} {g : Nat}
    (traced : Traced s idx g) : Traced s' idx g := by
  refine ⟨traced.below.trans_le ages.drawn, fun i holds => ?_⟩
  have same := ages.holder traced holds
  rw [same] at holds ⊢
  exact traced.found i holds

theorem Ages.lapsed {s s' : State} (ages : Ages s s') {idx : UInt16} {g : Nat} {clock : Timespec}
    (traced : Traced s idx g) (lapsed : Lapsed s clock g) : Lapsed s' clock g := by
  intro i holds
  have same := ages.holder traced holds
  rw [same] at holds ⊢
  exact lapsed i holds

theorem nonceRegen_ages (s : State) (i : Fin 16) : Ages s (nonceRegen s i) := by
  refine ⟨Nat.le_succ _, fun j => ?_⟩
  by_cases here : j = i
  · subst here
    exact Or.inr (Or.inl (by simp [nonceRegen]))
  · exact Or.inl (by simp [nonceRegen, here])

theorem NoncesOk.regen {s : State} (ok : NoncesOk s) (i : Fin 16) : NoncesOk (nonceRegen s i) := by
  have here : ((nonceRegen s i).nonces i).nonce = s.drawn := by simp [nonceRegen]
  have there : ∀ j, j ≠ i → ((nonceRegen s i).nonces j).nonce = (s.nonces j).nonce := by
    intro j other
    simp [nonceRegen, other]
  constructor
  · intro j
    change _ < s.drawn + 1
    by_cases same : j = i
    · rw [same, here]
      exact Nat.lt_succ_self _
    · rw [there j same]
      exact (ok.below j).trans (Nat.lt_succ_self _)
  · intro j k same
    by_cases first : j = i <;> by_cases second : k = i
    · rw [first, second]
    · rw [first, here, there k second] at same
      exact absurd same (ok.below k).ne'
    · rw [second, here, there j first] at same
      exact absurd same (ok.below j).ne
    · rw [there j first, there k second] at same
      exact ok.distinct j k same

theorem getValidNonceFrom_ages (now : Timespec) (s : State) (indices : List UInt16) :
    Ages s (getValidNonceFrom now s indices).1 ∧
      (getValidNonceFrom now s indices).1.bcache = s.bcache ∧
      (getValidNonceFrom now s indices).1.drawn = s.drawn ∧
      ∀ i, ((getValidNonceFrom now s indices).1.nonces i).nonce = (s.nonces i).nonce := by
  induction indices generalizing s with
  | nil => exact ⟨Ages.refl s, rfl, rfl, fun _ => rfl⟩
  | cons c rest ih =>
      unfold getValidNonceFrom
      split
      · exact ⟨Ages.refl s, rfl, rfl, fun _ => rfl⟩
      · rename_i n found
        have isHere : s.nonces (slot c) = n := by
          unfold getNonce at found
          split at found
          · exact Option.some.inj found
          · cases found
        dsimp only
        set n' : NonceHolder := if tsisset n.validUntil then n
          else { n with validUntil := tsadd now maxNonceLifetime } with isNext
        set s' : State := { s with nonces := Function.update s.nonces (slot c) n' } with isState
        have sameNonce : n'.nonce = n.nonce := by
          rw [isNext]
          split <;> rfl
        have nonces : ∀ i, (s'.nonces i).nonce = (s.nonces i).nonce := by
          intro i
          by_cases here : i = slot c
          · rw [here, isState]
            simp [sameNonce, isHere]
          · simp [isState, here]
        have ages : Ages s s' := by
          refine ⟨le_refl _, fun i => ?_⟩
          by_cases here : i = slot c
          · subst here
            by_cases set : tsisset n.validUntil = true
            · have same : n' = n := by rw [isNext, if_pos set]
              exact Or.inl (by simp [isState, same, isHere])
            · refine Or.inr (Or.inr ⟨nonces _, ?_⟩)
              rw [isHere]
              simpa using set
          · exact Or.inl (by simp [isState, here])
        split
        · exact ⟨ages, rfl, rfl, nonces⟩
        · obtain ⟨later, cache, drawn, names⟩ := ih s'
          exact ⟨ages.trans later, cache, drawn, fun i => (names i).trans (nonces i)⟩

theorem rrCnKeygenToken_ages {s s' : State} {now : Timespec} (ok : NoncesOk s)
    (taken : rrCnKeygenToken s now = .ok s') :
    Ages s s' ∧ s'.bcache = s.bcache ∧ NoncesOk s' := by
  simp only [rrCnKeygenToken, getValidNonce] at taken
  split at taken
  · cases taken
  · rename_i next n asked
    cases taken
    obtain ⟨ages, cache, drawn, names⟩ := getValidNonceFrom_ages now s
      (if s.minNce ≤ s.maxNce then (List.range 16).map fun i => s.minNce + UInt16.ofNat i else [])
    rw [asked] at ages cache drawn names
    refine ⟨ages, cache, fun i => ?_, fun i j same => ok.distinct i j ?_⟩
    · rw [drawn, names]
      exact ok.below i
    · rwa [names, names] at same

/-! ## What keeps an update out -/

def Guards (q : Request) : Option Bcentry → Prop
  | none => q.registers = false
  | some e =>
      if e.type = .nonceBlock then
        q.registers = true → mip6SeqGt q.seqno e.seqno = false ∧ e.nonceHoa = q.home
      else mip6SeqGt q.seqno e.seqno = false

/-- The entry that `bce_delete` leaves. -/
def retired (s : State) (bce : Bcentry) : Option Bcentry :=
  if bce.type = .cached ∨ bce.type = .cacheDying then
    (rrCnNonceLft s bce.nonceHoa).map fun minlft =>
      { bce with type := .nonceBlock, expires := minlft }
  else none

theorem retired_type {s : State} {e bce : Bcentry} (left : retired s e = some bce) :
    bce.type = .nonceBlock := by
  simp only [retired] at left
  split at left
  · obtain ⟨minlft, _, rfl⟩ := Option.map_eq_some_iff.mp left
    rfl
  · cases left

theorem bceDelete_eq (s : State) (k : BcKey) (bce : Bcentry) :
    bceDelete s k bce = s.put k (retired s bce) := by
  simp only [bceDelete, retired]
  split
  · split
    · rename_i minlft found
      rw [found]
      rfl
    · rename_i missing
      rw [missing]
      rfl
  · rfl

theorem bcacheDelete_eq {s : State} {k : BcKey} {bce : Bcentry} (present : s.bcache k = some bce) :
    bcacheDelete s k = s.put k (retired s bce) := by
  simp only [bcacheDelete]
  rw [present]
  exact bceDelete_eq s k bce

@[simp] theorem put_put (s : State) (k : BcKey) (e e' : Option Bcentry) :
    (s.put k e).put k e' = s.put k e' := by
  simp [State.put]

theorem put_ages (s : State) (k : BcKey) (e : Option Bcentry) : Ages s (s.put k e) :=
  ⟨le_refl _, fun _ => Or.inl rfl⟩

theorem put_self (s : State) (k : BcKey) : s.put k (s.bcache k) = s := by
  simp [State.put]

/-- What an update that the check lets through does to the entry of its pair. -/
inductive Answered (conf : CnConf) (s : State) (now : Timespec) (k : BcKey) (q : Request)
    (memory : Bool) : Option Bcentry → BasStatus → Prop where
  | kept (status : BasStatus) : status ≠ .accepted → Answered conf s now k q memory (s.bcache k) status
  | prohibited (e : Option Bcentry) : cnBindingPolGet conf k = false →
      (∀ bce, e = some bce → bce.type = .nonceBlock) → Answered conf s now k q memory e .prohibit
  | bound : cnBindingPolGet conf k = true → q.registers = true → ¬ Guards q (s.bcache k) →
      (memory = true ∨ ∃ e, s.bcache k = some e ∧ e.type ≠ .nonceBlock) →
      Answered conf s now k q memory (some (boundEntry now q (q.nonInd.getD (0, 0)))) .accepted
  | crowded (e : Bcentry) : cnBindingPolGet conf k = true → q.registers = true →
      s.bcache k = some e → e.type = .nonceBlock → ¬ Guards q (s.bcache k) → memory = false →
      Answered conf s now k q memory none .insufficient
  | unbound (e : Bcentry) : cnBindingPolGet conf k = true → q.registers = false →
      s.bcache k = some e → e.type ≠ .nonceBlock → ¬ Guards q (s.bcache k) →
      Answered conf s now k q memory (retired s e) .accepted

section Answers
variable {conf : CnConf} {s : State} {now : Timespec} {k : BcKey} {q : Request} {alloc node : Bool}

/-- The result of `cn_recv_bu` is one of the answers. -/
def Answers (conf : CnConf) (s : State) (now : Timespec) (k : BcKey) (q : Request) (memory : Bool)
    (result : State × Option BasStatus) : Prop :=
  ∃ e status, result = (s.put k e, some status) ∧ Answered conf s now k q memory e status

theorem answers_kept {memory : Bool} {status : BasStatus} (refused : status ≠ .accepted) :
    Answers conf s now k q memory (s, some status) :=
  ⟨s.bcache k, status, by rw [put_self], .kept status refused⟩

theorem answers_new {s' : State} (cleared : s' = s.put k none)
    (blocked : ∀ e, s.bcache k = some e → e.type = .nonceBlock) (registers : q.registers = true)
    (unguarded : ¬ Guards q (s.bcache k)) :
    Answers conf s now k q (alloc && node)
      ((cnBind conf s' now k q (q.nonInd.getD (0, 0)) none alloc node).1,
        some (cnBind conf s' now k q (q.nonInd.getD (0, 0)) none alloc node).2) := by
  subst cleared
  unfold cnBind
  rw [Request.registers] at registers
  by_cases policy : cnBindingPolGet conf k = true
  · rw [if_pos policy, if_pos registers]
    dsimp only
    by_cases memory : (alloc && node) = true
    · rw [if_pos memory, put_put]
      exact ⟨_, _, rfl, .bound policy registers unguarded (Or.inl memory)⟩
    · rw [if_neg memory]
      cases present : s.bcache k with
      | none =>
          rw [← present, put_self]
          exact answers_kept (by simp)
      | some e =>
          exact ⟨_, _, rfl, .crowded e policy registers present (blocked e present) unguarded
            (by simpa using memory)⟩
  · rw [if_neg policy]
    exact ⟨_, _, rfl, .prohibited none (by simpa using policy) (by simp)⟩

theorem answers_live {e : Bcentry} (present : s.bcache k = some e) (live : e.type ≠ .nonceBlock)
    (unguarded : ¬ Guards q (s.bcache k)) :
    Answers conf s now k q (alloc && node)
      ((cnBind conf s now k q (q.nonInd.getD (0, 0)) (some e) alloc node).1,
        some (cnBind conf s now k q (q.nonInd.getD (0, 0)) (some e) alloc node).2) := by
  unfold cnBind
  dsimp only
  rw [bcacheDelete_eq present]
  by_cases policy : cnBindingPolGet conf k = true
  · rw [if_pos policy]
    by_cases registers : tsisset q.lifetime = true
    · rw [if_pos registers]
      exact ⟨_, _, rfl, .bound policy registers unguarded (Or.inr ⟨e, present, live⟩)⟩
    · rw [if_neg registers]
      have leaves : q.registers = false := Bool.not_eq_true _ |>.mp registers
      exact ⟨_, _, rfl, .unbound e policy leaves present live unguarded⟩
  · rw [if_neg policy]
    exact ⟨_, _, rfl, .prohibited _ (by simpa using policy) fun bce left => retired_type left⟩

theorem cnRecvBu_answers {authentic : Authentic} {m : Bu} {remoteCoa : Option In6Addr}
    (parsed : mhBuParse conf.dupBeyond s.bceExists m remoteCoa = some q)
    (checked : cnBuCheck authentic s now m q = some .accepted) :
    Answers conf s now m.key q (alloc && node)
      (cnRecvBu conf authentic s now m remoteCoa alloc node) := by
  simp only [cnRecvBu]
  rw [parsed]
  dsimp only
  rw [checked]
  dsimp only
  split
  · rename_i present
    by_cases registers : q.registers = true
    · refine answers_new (by rw [← present, put_self]) (fun e found => ?_) registers ?_
      · rw [present] at found
        cases found
      · rw [present]
        simp [Guards, registers]
    · have result : cnBind conf s now m.key q (q.nonInd.getD (0, 0)) none alloc node =
          (s, if cnBindingPolGet conf m.key then .unspecified else .prohibit) := by
        simp only [cnBind]
        rw [Request.registers] at registers
        rw [if_neg registers]
        split <;> rfl
      rw [result]
      apply answers_kept
      split <;> simp
  · rename_i bce present
    by_cases blocked : bce.type = .nonceBlock
    · rw [if_neg (by simp [blocked])]
      split
      · exact answers_kept (by decide)
      · rename_i passes
        split
        · rename_i registers
          refine answers_new ?_ (fun e found => ?_) registers ?_
          · rw [bcacheDelete_eq present, retired, if_neg (by simp [blocked])]
          · rw [present] at found
            cases found
            exact blocked
          · rw [present]
            simp only [Guards, if_pos blocked]
            intro guarded
            apply passes
            simpa [Request.home] using guarded registers
        · exact answers_kept (by decide)
    · by_cases ahead : mip6SeqGt q.seqno bce.seqno = true
      · rw [if_neg (by simp [ahead]), if_neg (by simp [ahead]), if_neg blocked]
        refine answers_live present blocked ?_
        rw [present]
        simp [Guards, blocked, ahead]
      · rw [if_pos (by simp [blocked, ahead])]
        exact answers_kept (by decide)

theorem cnRecvBu_refused {authentic : Authentic} {m : Bu} {remoteCoa : Option In6Addr}
    (refused : ∀ q, mhBuParse conf.dupBeyond s.bceExists m remoteCoa = some q →
      cnBuCheck authentic s now m q ≠ some .accepted) :
    (cnRecvBu conf authentic s now m remoteCoa alloc node).1 = s ∧
      (cnRecvBu conf authentic s now m remoteCoa alloc node).2 ≠ some .accepted := by
  simp only [cnRecvBu]
  split
  · exact ⟨rfl, by simp⟩
  · rename_i q parsed
    split
    · exact ⟨rfl, by simp⟩
    · rename_i checked
      exact absurd checked (refused q parsed)
    · rename_i status notAccepted checked
      refine ⟨rfl, fun same => ?_⟩
      exact notAccepted (by simpa using same)

end Answers

/-! ## The check and the parser -/

section Check
variable {s : State} {now : Timespec} {q : Request}

theorem rrCnCalcKbm_error {home : UInt16} {careOf : Option UInt16} {status : BasStatus}
    (failed : rrCnCalcKbm s now home careOf = .error status) : status ≠ .accepted := by
  simp only [rrCnCalcKbm] at failed
  split at failed
  · cases failed
    decide
  · cases failed
  · split at failed
    · cases failed
      decide
    · cases failed
      decide
    · cases failed
      decide
    · cases failed

theorem kbmNonces_ok_iff {home : Nat} {careOf : Option Nat} :
    kbmNonces s now q (q.nonInd.getD (0, 0)) = .ok (home, careOf) ↔
      (∃ n, validateNonce s now q.home = some n ∧ n.nonce = home) ∧
        if q.registers then ∃ n, validateNonce s now q.careOf = some n ∧ careOf = some n.nonce
        else careOf = none := by
  have asked : kbmNonces s now q (q.nonInd.getD (0, 0)) =
      rrCnCalcKbm s now q.home (if q.registers then some q.careOf else none) := rfl
  rw [asked]
  simp only [rrCnCalcKbm]
  cases q.registers with
  | false => cases validateNonce s now q.home <;> simp [eq_comm]
  | true =>
      cases validateNonce s now q.home <;> cases found : validateNonce s now q.careOf <;>
        simp [found, eq_comm]

theorem cnBuCheck_accepted_iff {authentic : Authentic} {m : Bu} :
    cnBuCheck authentic s now m q = some .accepted ↔
      q.isHome = false ∧ q.nonInd.isSome = true ∧ q.hasAuth = true ∧
        ∃ home careOf, kbmNonces s now q (q.nonInd.getD (0, 0)) = .ok (home, careOf) ∧
          authentic home careOf m.key q.bindCoa (clearCksum m.mh) = true := by
  simp only [cnBuCheck]
  cases q.isHome with
  | true =>
      simp only [if_true, Bool.true_eq_false, false_and, iff_false]
      split
      · simp
      · split <;> simp
  | false =>
      cases q.nonInd with
      | none => simp
      | some nonInd =>
          simp only [Bool.false_eq_true, if_false, Option.isSome_some, Option.getD_some, true_and]
          cases nonces : kbmNonces s now q nonInd with
          | error status =>
              have refused := rrCnCalcKbm_error nonces
              simp [refused]
          | ok pair =>
              obtain ⟨home, careOf⟩ := pair
              cases q.hasAuth with
              | false => simp
              | true =>
                  simp only [Bool.true_and, Except.ok.injEq, Prod.mk.injEq, true_and]
                  split
                  · rename_i genuine
                    exact iff_of_true rfl ⟨home, careOf, ⟨rfl, rfl⟩, genuine⟩
                  · rename_i forged
                    refine iff_of_false (by simp) ?_
                    intro given
                    obtain ⟨_, _, ⟨rfl, rfl⟩, genuine⟩ := given
                    exact forged genuine

end Check

def requestOf (m : Bu) (mhOpts : MhOptions) (bindCoa : In6Addr) : Request where
  isHome := m.buffer 8 &&& 0x40 ≠ 0
  seqno := ntohs (load16 m.buffer 6)
  nonInd := (mhOpt mhOpts 4).map fun i =>
    (ntohs (load16 m.buffer (i + 2)), ntohs (load16 m.buffer (i + 4)))
  hasAuth := (mhOpt mhOpts 5).isSome
  bindCoa := bindCoa
  lifetime := if bindCoa = m.src then ⟨0, 0⟩ else ⟨4 * (ntohs (load16 m.buffer 10)).toNat, 0⟩

theorem mhBuParse_eq {dupBeyond : Nat → Bool} {known : BcKey → Bool} {m : Bu}
    {remoteCoa : Option In6Addr} {q : Request}
    (parsed : mhBuParse dupBeyond known m remoteCoa = some q) :
    ∃ mhOpts, mhOptParse dupBeyond m.buffer m.mh.length 12 = some mhOpts ∧
      q = requestOf m mhOpts q.bindCoa := by
  unfold mhBuParse at parsed
  split at parsed
  · cases parsed
  · split at parsed
    · cases parsed
    · rename_i mhOpts read
      refine ⟨mhOpts, read, ?_⟩
      split at parsed
      · dsimp only at parsed
        split at parsed
        · cases parsed
          simp [requestOf]
        · split at parsed
          · cases parsed
          · split at parsed
            · rename_i atHome
              cases parsed
              simp [requestOf, atHome]
            · rename_i away
              split at parsed
              · cases parsed
              · cases parsed
                simp [requestOf, away]
      · cases parsed

theorem mhBuParse_agree {dupBeyond : Nat → Bool} {known known' : BcKey → Bool} {m : Bu}
    {remoteCoa remoteCoa' : Option In6Addr} {q q' : Request}
    (first : mhBuParse dupBeyond known m remoteCoa = some q)
    (second : mhBuParse dupBeyond known' m remoteCoa' = some q') (same : q.bindCoa = q'.bindCoa) :
    q = q' := by
  obtain ⟨mhOpts, read, isFirst⟩ := mhBuParse_eq first
  obtain ⟨_, read', isSecond⟩ := mhBuParse_eq second
  rw [read] at read'
  cases read'
  rw [isFirst, isSecond, same]

end OaiPmip.Cn
