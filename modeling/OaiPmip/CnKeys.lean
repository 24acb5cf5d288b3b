import OaiPmip.CnAnswers
import OaiPmip.Lib.Runs

/-!
# Binding authorisation keys, keygen.c

The correspondent node does not keep the tokens that it hands out: it keeps the
nonces, and makes the key of an update from the two indices that come with it.
The mobile node makes the key from the tokens.  The indices of a place in the
table differ by 16 from one nonce to the next and an index in use is at most the
number of nonces drawn, so none comes back before the 16 bits run out.
-/

set_option autoImplicit false

namespace OaiPmip.Cn

open OaiPmip.Runs

/-- The hashes, `key_cn` and the bytes of each draw. -/
structure Crypto where
  hmacSha1 : List UInt8 → List UInt8 → List UInt8
  sha1 : List UInt8 → List UInt8
  keyCn : List UInt8
  randBytes : Nat → List UInt8

def nonceLength : Nat := 8

namespace Crypto

def buildKgenToken (c : Crypto) (addr : In6Addr) (nonce : Nat) (id : UInt8) : List UInt8 :=
  (c.hmacSha1 c.keyCn (addr.bytes ++ (c.randBytes nonce).take nonceLength ++ [id])).take 8

/-- `rr_cn_keygen_token` with the index and the token. -/
def rrCnKeygenToken (c : Crypto) (s : State) (now : Timespec) (addr : In6Addr) (bit : UInt8) :
    Except Crash (State × UInt16 × List UInt8) :=
  match getValidNonce s now with
  | (_, none) => .error .nullEntry
  | (s, some n) => .ok (s, n.nonceIndex, c.buildKgenToken addr n.nonce bit)

def rrMnCalcKbm (c : Crypto) (keygenHoa : List UInt8) (keygenCoa : Option (List UInt8)) :
    List UInt8 :=
  match keygenCoa with
  | some keygenCoa => c.sha1 (keygenHoa.take nonceLength ++ keygenCoa.take nonceLength)
  | none => c.sha1 (keygenHoa.take nonceLength)

def rrCnCalcKbm (c : Crypto) (s : State) (now : Timespec) (homeNonceInd coaNonceInd : UInt16)
    (hoa : In6Addr) (coa : Option In6Addr) : Except BasStatus (List UInt8) :=
  match Cn.rrCnCalcKbm s now homeNonceInd (coa.map fun _ => coaNonceInd) with
  | .error status => .error status
  | .ok (homeNce, careofNce) =>
      let homeToken := c.buildKgenToken hoa homeNce 0
      match coa, careofNce with
      | some coa, some careofNce =>
          .ok (c.rrMnCalcKbm homeToken (some (c.buildKgenToken coa careofNce 1)))
      | _, _ => .ok (c.rrMnCalcKbm homeToken none)

theorem rrCnKeygenToken_state (c : Crypto) (s : State) (now : Timespec) (addr : In6Addr)
    (bit : UInt8) :
    (c.rrCnKeygenToken s now addr bit).map Prod.fst = Cn.rrCnKeygenToken s now := by
  simp only [rrCnKeygenToken, Cn.rrCnKeygenToken]
  rcases getValidNonce s now with ⟨s', _ | n⟩ <;> rfl

end Crypto

/-- Each new nonce is one draw; the first sixteen are those of `nonce_init`. -/
def State.regenerations (s : State) : Nat := s.drawn - 16

/-- A token as it was handed out, and the nonce of which it was made. -/
structure Issued where
  addr : In6Addr
  bit : UInt8
  index : UInt16
  token : List UInt8
  nonce : Nat
  validUntil : Timespec

structure KeyNode where
  node : Node
  issued : List Issued

def KeyNode.init : KeyNode := ⟨Node.init, []⟩

inductive KeyInput where
  | token (now : Timespec) (addr : In6Addr) (bit : UInt8)
  | other (input : CnInput)

def KeyInput.now : KeyInput → Timespec
  | .token now _ _ => now
  | .other input => input.now

def KeyNode.step (c : Crypto) (conf : CnConf) (authentic : Authentic) (w : KeyNode) :
    KeyInput → Except Crash KeyNode
  | .token now addr bit =>
      match c.rrCnKeygenToken w.node.cn now addr bit with
      | .error crash => .error crash
      | .ok (s, index, token) =>
          let n := s.nonces (slot index)
          .ok ⟨{ w.node with cn := s, clock := now },
            ⟨addr, bit, index, token, n.nonce, n.validUntil⟩ :: w.issued⟩
  | .other input =>
      match w.node.step conf authentic input with
      | .error crash => .error crash
      | .ok node => .ok { w with node := node }

def KeyInput.node : KeyInput → CnInput
  | .token now _ _ => .testInit now
  | .other input => input

theorem keyStep_node {c : Crypto} {conf : CnConf} {authentic : Authentic} {w w' : KeyNode}
    {input : KeyInput} (taken : w.step c conf authentic input = .ok w') :
    w.node.step conf authentic input.node = .ok w'.node := by
  cases input with
  | token now addr bit =>
      have state := c.rrCnKeygenToken_state w.node.cn now addr bit
      simp only [KeyNode.step] at taken
      split at taken
      · cases taken
      · rename_i asked
        cases taken
        rw [asked] at state
        simp only [KeyInput.node, Node.step, ← state, Except.map]
  | other input =>
      simp only [KeyNode.step] at taken
      split at taken
      · cases taken
      · rename_i stepped
        cases taken
        exact stepped

theorem keyRun_node {c : Crypto} {conf : CnConf} {authentic : Authentic} {w w' : KeyNode}
    {inputs : List KeyInput} (finished : run (KeyNode.step c conf authentic) w inputs = .ok w') :
    run (Node.step conf authentic) w.node (inputs.map KeyInput.node) = .ok w'.node := by
  induction inputs generalizing w with
  | nil =>
      cases finished
      rfl
  | cons input rest ih =>
      simp only [run] at finished
      split at finished
      · rename_i next taken
        simp only [List.map_cons, run, keyStep_node taken]
        exact ih finished
      · cases finished

def Issued.regenerated (s : State) (iss : Issued) : Bool :=
  (s.nonces (slot iss.index)).nonce ≠ iss.nonce

def Issued.valid (s : State) (now : Timespec) (iss : Issued) : Bool :=
  !iss.regenerated s && !tsafter iss.validUntil now

/-! ## The indices and what becomes of a token -/

/-- The bounds follow the draws, and an index in use is within them. -/
structure IndicesOk (s : State) : Prop where
  min : s.minNce.toNat + 15 = s.drawn
  max : s.maxNce.toNat = s.drawn
  below : ∀ i, (s.nonces i).nonceIndex.toNat ≤ s.drawn + 16
  used : ∀ i, tsisset (s.nonces i).validUntil = true → (s.nonces i).nonceIndex.toNat ≤ s.drawn

theorem indicesOk_init : IndicesOk State.init where
  min := by decide
  max := by decide
  below := by decide
  used := by decide

theorem toNat_add_of_lt {x y : UInt16} (fits : x.toNat + y.toNat < 65536) :
    (x + y).toNat = x.toNat + y.toNat := by
  rw [UInt16.toNat_add]
  exact Nat.mod_eq_of_lt fits

theorem IndicesOk.advances {s : State} (ok : IndicesOk s) {i : Fin 16}
    (set : tsisset (s.nonces i).validUntil = true) (few : s.regenerations < 64999) :
    ((nonceRegen s i).nonces i).nonceIndex.toNat = (s.nonces i).nonceIndex.toNat + 16 := by
  have used := ok.used i set
  have sixteen : (16 : UInt16).toNat = 16 := rfl
  simp only [State.regenerations] at few
  simp only [nonceRegen, Function.update_self]
  rw [toNat_add_of_lt] <;> omega

theorem IndicesOk.regen {s : State} (ok : IndicesOk s) {i : Fin 16}
    (set : tsisset (s.nonces i).validUntil = true) (few : s.regenerations < 64999) :
    IndicesOk (nonceRegen s i) := by
  have min := ok.min
  have max := ok.max
  have advances := ok.advances set few
  have usedHere := ok.used i set
  have drawn : (nonceRegen s i).drawn = s.drawn + 1 := rfl
  have others : ∀ j, j ≠ i → (nonceRegen s i).nonces j = s.nonces j := by
    intro j other
    simp [nonceRegen, other]
  have one : (1 : UInt16).toNat = 1 := rfl
  simp only [State.regenerations] at few
  constructor
  · have next : (nonceRegen s i).minNce.toNat = s.minNce.toNat + 1 :=
      toNat_add_of_lt (by omega)
    omega
  · have next : (nonceRegen s i).maxNce.toNat = s.maxNce.toNat + 1 :=
      toNat_add_of_lt (by omega)
    omega
  · intro j
    by_cases here : j = i
    · rw [here]
      omega
    · rw [others j here]
      have := ok.below j
      omega
  · intro j inUse
    by_cases here : j = i
    · rw [here] at inUse
      simp [nonceRegen, tsisset] at inUse
    · rw [others j here] at inUse ⊢
      have := ok.used j inUse
      omega

def NonceHolder.starts (n : NonceHolder) (now : Timespec) : NonceHolder :=
  { n with validUntil := tsadd now maxNonceLifetime }

/-- What the search of a nonce changes: nonces among the indices may start. -/
structure Searched (now : Timespec) (indices : List UInt16) (s s' : State) : Prop where
  counts : s'.minNce = s.minNce ∧ s'.maxNce = s.maxNce ∧ s'.drawn = s.drawn
  holders : ∀ i, s'.nonces i = s.nonces i ∨
    (tsisset (s.nonces i).validUntil = false ∧ s'.nonces i = (s.nonces i).starts now ∧
      (s.nonces i).nonceIndex ∈ indices)

theorem Searched.refl (now : Timespec) (indices : List UInt16) (s : State) :
    Searched now indices s s := ⟨⟨rfl, rfl, rfl⟩, fun _ => Or.inl rfl⟩

theorem Searched.nonce {now : Timespec} {indices : List UInt16} {s s' : State}
    (searched : Searched now indices s s') (i : Fin 16) :
    (s'.nonces i).nonce = (s.nonces i).nonce ∧
      (s'.nonces i).nonceIndex = (s.nonces i).nonceIndex := by
  rcases searched.holders i with same | ⟨-, started, -⟩
  · simp only [same, and_self]
  · simp only [started, NonceHolder.starts, and_self]

theorem Searched.cons {now : Timespec} {c : UInt16} {rest : List UInt16} {s s' s'' : State}
    (first : Searched now [c] s s') (epoch : 0 < now.tvSec) (later : Searched now rest s' s'') :
    Searched now (c :: rest) s s'' := by
  obtain ⟨min, max, drawn⟩ := first.counts
  obtain ⟨min', max', drawn'⟩ := later.counts
  refine ⟨⟨min'.trans min, max'.trans max, drawn'.trans drawn⟩, ?_⟩
  intro i
  rcases later.holders i with same | ⟨unset, started, among⟩
  · rw [same]
    rcases first.holders i with kept | ⟨unset, started, here⟩
    · exact Or.inl kept
    · exact Or.inr ⟨unset, started, by simp [List.mem_singleton.mp here]⟩
  · rcases first.holders i with kept | ⟨-, startedBefore, -⟩
    · rw [kept] at unset started among
      exact Or.inr ⟨unset, started, List.mem_cons_of_mem _ among⟩
    · rw [startedBefore, NonceHolder.starts, tsisset_tsadd epoch (by decide)] at unset
      cases unset

theorem getValidNonceFrom_searched {now : Timespec} (epoch : 0 < now.tvSec) (s : State)
    (indices : List UInt16) :
    Searched now indices s (getValidNonceFrom now s indices).1 ∧
      ∀ n, (getValidNonceFrom now s indices).2 = some n →
        (getValidNonceFrom now s indices).1.nonces (slot n.nonceIndex) = n ∧
          tsisset n.validUntil = true := by
  induction indices generalizing s with
  | nil => exact ⟨Searched.refl now [] s, fun n found => by cases found⟩
  | cons c rest ih =>
      simp only [getValidNonceFrom]
      split
      · exact ⟨Searched.refl now _ s, fun n found => by cases found⟩
      · rename_i n found
        obtain ⟨isHere, index⟩ : s.nonces (slot c) = n ∧ n.nonceIndex = c := by
          simp only [getNonce] at found
          split at found
          · rename_i index
            cases found
            exact ⟨rfl, index⟩
          · cases found
        set next : NonceHolder := if tsisset n.validUntil then n
          else { n with validUntil := tsadd now maxNonceLifetime } with isNext
        have runs : tsisset next.validUntil = true ∧ next.nonceIndex = c := by
          rw [isNext]
          split
          · rename_i isSet
            exact ⟨isSet, index⟩
          · exact ⟨tsisset_tsadd epoch (by decide), index⟩
        set s' : State := { s with nonces := Function.update s.nonces (slot c) next } with isState
        have first : Searched now [c] s s' := by
          refine ⟨⟨rfl, rfl, rfl⟩, ?_⟩
          intro i
          by_cases here : i = slot c
          · subst here
            rw [isState, isHere, isNext]
            by_cases isSet : tsisset n.validUntil = true
            · simp [isSet]
            · simp [isSet, NonceHolder.starts, index]
          · simp [isState, here]
        split
        · refine ⟨first.cons epoch (Searched.refl now rest s'), ?_⟩
          intro n' isFound
          cases isFound
          rw [runs.2]
          exact ⟨by simp [isState], runs.1⟩
        · obtain ⟨later, ends⟩ := ih s'
          exact ⟨first.cons epoch later, ends⟩

theorem IndicesOk.searched {now : Timespec} {indices : List UInt16} {s s' : State}
    (ok : IndicesOk s) (searched : Searched now indices s s')
    (within : ∀ c ∈ indices, c.toNat ≤ s.drawn) : IndicesOk s' := by
  obtain ⟨min, max, drawn⟩ := searched.counts
  constructor
  · rw [min, drawn]
    exact ok.min
  · rw [max, drawn]
    exact ok.max
  · intro i
    rw [(searched.nonce i).2, drawn]
    exact ok.below i
  · intro i isSet
    rw [(searched.nonce i).2, drawn]
    rcases searched.holders i with same | ⟨-, -, among⟩
    · rw [same] at isSet
      exact ok.used i isSet
    · exact within _ among

theorem IndicesOk.searchable {s : State} (ok : IndicesOk s) (few : s.regenerations < 65000) :
    ∀ c ∈ (if s.minNce ≤ s.maxNce then
      (List.range 16).map fun i => s.minNce + UInt16.ofNat i else []), c.toNat ≤ s.drawn := by
  intro c among
  split at among
  · obtain ⟨k, inRange, rfl⟩ := List.mem_map.mp among
    have small : k < 16 := List.mem_range.mp inRange
    have place : (UInt16.ofNat k).toNat = k := by
      rw [UInt16.toNat_ofNat']
      exact Nat.mod_eq_of_lt (by omega)
    have min := ok.min
    simp only [State.regenerations] at few
    rw [toNat_add_of_lt] <;> omega
  · cases among

/-- The nonce of the token is in its place, or the index there has gone past. -/
structure Issued.Kept (c : Crypto) (s : State) (iss : Issued) : Prop where
  drawn : iss.nonce < s.drawn
  used : tsisset iss.validUntil = true
  token : iss.token = c.buildKgenToken iss.addr iss.nonce iss.bit
  current : iss.regenerated s = false →
    (s.nonces (slot iss.index)).nonceIndex = iss.index ∧
      (s.nonces (slot iss.index)).validUntil = iss.validUntil
  gone : iss.regenerated s = true →
    iss.index.toNat < (s.nonces (slot iss.index)).nonceIndex.toNat

namespace Issued

variable {c : Crypto} {s s' : State} {iss : Issued} {now : Timespec}

theorem Kept.searched {indices : List UInt16} (kept : iss.Kept c s)
    (searched : Searched now indices s s') : iss.Kept c s' := by
  obtain ⟨nonce, index⟩ := searched.nonce (slot iss.index)
  have same : iss.regenerated s' = iss.regenerated s := by
    simp only [regenerated, nonce]
  constructor
  · rw [searched.counts.2.2]
    exact kept.drawn
  · exact kept.used
  · exact kept.token
  · intro here
    obtain ⟨isIndex, isUntil⟩ := kept.current (same ▸ here)
    refine ⟨index.trans isIndex, ?_⟩
    rcases searched.holders (slot iss.index) with unchanged | ⟨unset, -, -⟩
    · rw [unchanged]
      exact isUntil
    · rw [isUntil, kept.used] at unset
      cases unset
  · intro away
    rw [index]
    exact kept.gone (same ▸ away)

theorem regenerated_here {i : Fin 16} (drawn : iss.nonce < s.drawn) (here : slot iss.index = i) :
    iss.regenerated (nonceRegen s i) = true := by
  simp only [regenerated, nonceRegen, here, Function.update_self, decide_eq_true_eq]
  omega

theorem regenerated_elsewhere {i : Fin 16} (there : slot iss.index ≠ i) :
    (nonceRegen s i).nonces (slot iss.index) = s.nonces (slot iss.index) := by
  simp [nonceRegen, there]

theorem Kept.regen {i : Fin 16} (kept : iss.Kept c s) (ok : IndicesOk s)
    (isSet : tsisset (s.nonces i).validUntil = true) (few : s.regenerations < 64999) :
    iss.Kept c (nonceRegen s i) := by
  have drawn : iss.nonce < (nonceRegen s i).drawn := kept.drawn.trans (Nat.lt_succ_self _)
  by_cases here : slot iss.index = i
  · have away := regenerated_here kept.drawn here
    refine ⟨drawn, kept.used, kept.token, ?_, ?_⟩
    · intro stays
      rw [away] at stays
      cases stays
    · intro _
      have advances := ok.advances isSet few
      rw [here]
      cases before : iss.regenerated s with
      | false =>
          obtain ⟨index, -⟩ := kept.current before
          rw [here] at index
          rw [index] at advances
          omega
      | true =>
          have past := kept.gone before
          rw [here] at past
          omega
  · have unchanged := regenerated_elsewhere (s := s) here
    have same : iss.regenerated (nonceRegen s i) = iss.regenerated s := by
      simp only [regenerated, unchanged]
    refine ⟨drawn, kept.used, kept.token, ?_, ?_⟩
    · intro stays
      rw [unchanged]
      exact kept.current (same ▸ stays)
    · intro away
      rw [unchanged]
      exact kept.gone (same ▸ away)

theorem Kept.validates (kept : iss.Kept c s) (now : Timespec) :
    (iss.valid s now = true →
      ∃ n, validateNonce s now iss.index = some n ∧ n.nonce = iss.nonce) ∧
      (iss.valid s now = false → validateNonce s now iss.index = none) := by
  constructor
  · intro valid
    simp only [Issued.valid, Bool.and_eq_true, Bool.not_eq_true'] at valid
    obtain ⟨index, deadline⟩ := kept.current valid.1
    refine ⟨_, validateNonce_eq_some.mpr ⟨rfl, index, deadline ▸ valid.2⟩, ?_⟩
    simpa [regenerated] using valid.1
  · intro invalid
    cases found : validateNonce s now iss.index with
    | none => rfl
    | some n =>
        obtain ⟨rfl, index, ahead⟩ := validateNonce_eq_some.mp found
        cases regen : iss.regenerated s with
        | true =>
            have past := kept.gone regen
            rw [index] at past
            omega
        | false =>
            rw [(kept.current regen).2] at ahead
            simp [Issued.valid, regen, ahead] at invalid

end Issued

inductive Changed (now : Timespec) (s s' : State) : Prop where
  | searched (indices : List UInt16) : Searched now indices s s' →
      (IndicesOk s → s.regenerations < 65000 → ∀ c ∈ indices, c.toNat ≤ s.drawn) →
      Changed now s s'
  | regen (i : Fin 16) : tsisset (s.nonces i).validUntil = true →
      tsbefore (s.nonces i).validUntil now = false → s' = nonceRegen s i → Changed now s s'

theorem changed_put (now : Timespec) (s : State) (k : BcKey) (e : Option Bcentry) :
    Changed now s (s.put k e) := by
  refine .searched [] ⟨⟨rfl, rfl, rfl⟩, fun i => Or.inl rfl⟩ ?_
  intro _ _ c among
  cases among

theorem changed_refl (now : Timespec) (s : State) : Changed now s s := by
  have same := changed_put now s ⟨in6addrAny, in6addrAny⟩ (s.bcache ⟨in6addrAny, in6addrAny⟩)
  rwa [put_self] at same

theorem changed_cnRecvBu (conf : CnConf) (authentic : Authentic) (s : State) (now : Timespec)
    (m : Bu) (remoteCoa : Option In6Addr) (alloc node : Bool) :
    Changed now s (cnRecvBu conf authentic s now m remoteCoa alloc node).1 := by
  by_cases through : ∃ q, mhBuParse conf.dupBeyond s.bceExists m remoteCoa = some q ∧
      cnBuCheck authentic s now m q = some .accepted
  · obtain ⟨q, parsed, checked⟩ := through
    have answers : Answers conf s now m.key q (alloc && node)
        (cnRecvBu conf authentic s now m remoteCoa alloc node) := cnRecvBu_answers parsed checked
    obtain ⟨e, status, result, -⟩ := answers
    rw [result]
    exact changed_put now s m.key e
  · have refused : ∀ q, mhBuParse conf.dupBeyond s.bceExists m remoteCoa = some q →
        cnBuCheck authentic s now m q ≠ some .accepted :=
      fun q parsed checked => through ⟨q, parsed, checked⟩
    rw [(cnRecvBu_refused refused).1]
    exact changed_refl now s

theorem changed_getValidNonce {s : State} {now : Timespec} (epoch : 0 < now.tvSec) :
    Changed now s (getValidNonce s now).1 :=
  .searched _ (getValidNonceFrom_searched epoch s _).1 fun ok few => ok.searchable few

theorem Node.changed {conf : CnConf} {authentic : Authentic} {w w' : Node} {input : CnInput}
    (epoch : 0 < input.now.tvSec) (taken : w.step conf authentic input = .ok w') :
    Changed input.now w.cn w'.cn ∧ w'.clock = input.now := by
  cases input with
  | update now m remoteCoa alloc node =>
      simp only [Node.step] at taken
      cases taken
      exact ⟨changed_cnRecvBu conf authentic w.cn now m remoteCoa alloc node, rfl⟩
  | expire now k =>
      simp only [Node.step] at taken
      split at taken
      · cases taken
        exact ⟨changed_refl now w.cn, rfl⟩
      · split at taken
        · cases taken
          exact ⟨changed_refl now w.cn, rfl⟩
        · cases taken
          refine ⟨?_, rfl⟩
          simp only [Cn.expire, bceDelete_eq]
          split
          · exact changed_put now w.cn k _
          · exact changed_put now w.cn k _
  | testInit now =>
      simp only [Node.step, rrCnKeygenToken] at taken
      have changed : Changed now w.cn (getValidNonce w.cn now).1 := changed_getValidNonce epoch
      split at taken
      · cases taken
      · rename_i s asked
        cases taken
        split at asked
        · cases asked
        · rename_i found
          cases asked
          rw [found] at changed
          exact ⟨changed, rfl⟩
  | regen now i =>
      simp only [Node.step] at taken
      split at taken
      · rename_i due
        cases taken
        exact ⟨.regen i due.1 due.2 rfl, rfl⟩
      · cases taken
        exact ⟨changed_refl now w.cn, rfl⟩

theorem Changed.few {now : Timespec} {s s' : State} (changed : Changed now s s')
    (few : s'.regenerations < 65000) : s.regenerations < 65000 := by
  simp only [State.regenerations] at few ⊢
  cases changed with
  | searched indices searched within =>
      rw [searched.counts.2.2] at few
      exact few
  | regen i isSet due next =>
      rw [next] at few
      simp only [nonceRegen] at few
      omega

structure KeysOk (c : Crypto) (s : State) (issued : List Issued) : Prop where
  indices : IndicesOk s
  drawn : ∀ i, (s.nonces i).nonce < s.drawn
  kept : ∀ iss ∈ issued, iss.Kept c s

theorem KeysOk.changed {c : Crypto} {now : Timespec} {s s' : State} {issued : List Issued}
    (ok : KeysOk c s issued) (changed : Changed now s s') (few : s'.regenerations < 65000) :
    KeysOk c s' issued := by
  have fewBefore := changed.few few
  cases changed with
  | searched indices searched within =>
      constructor
      · exact ok.indices.searched searched (within ok.indices fewBefore)
      · intro i
        rw [(searched.nonce i).1, searched.counts.2.2]
        exact ok.drawn i
      · intro iss member
        exact (ok.kept iss member).searched searched
  | regen i isSet due next =>
      subst next
      have room : s.regenerations < 64999 := by
        simp only [State.regenerations, nonceRegen] at few ⊢
        omega
      constructor
      · exact ok.indices.regen isSet room
      · intro j
        by_cases here : j = i
        · subst here
          simp [nonceRegen]
        · simpa [nonceRegen, here] using (ok.drawn j).trans (Nat.lt_succ_self _)
      · intro iss member
        exact (ok.kept iss member).regen ok.indices isSet room

section Steps
variable {c : Crypto} {conf : CnConf} {authentic : Authentic} {w w' : KeyNode}

theorem KeyNode.stepped {input : KeyInput} (epoch : 0 < input.now.tvSec)
    (taken : w.step c conf authentic input = .ok w') :
    Changed input.now w.node.cn w'.node.cn ∧ w'.node.clock = input.now ∧
      (w'.issued = w.issued ∨ ∃ addr bit i, tsisset (w'.node.cn.nonces i).validUntil = true ∧
        slot (w'.node.cn.nonces i).nonceIndex = i ∧
        w'.issued = ⟨addr, bit, (w'.node.cn.nonces i).nonceIndex,
          c.buildKgenToken addr (w'.node.cn.nonces i).nonce bit, (w'.node.cn.nonces i).nonce,
          (w'.node.cn.nonces i).validUntil⟩ :: w.issued) := by
  cases input with
  | token now addr bit =>
      obtain ⟨-, found⟩ := getValidNonceFrom_searched epoch w.node.cn
        (if w.node.cn.minNce ≤ w.node.cn.maxNce then
          (List.range 16).map fun i => w.node.cn.minNce + UInt16.ofNat i else [])
      have changed : Changed now w.node.cn (getValidNonce w.node.cn now).1 :=
        changed_getValidNonce epoch
      change ∀ n, (getValidNonce w.node.cn now).2 = some n →
        (getValidNonce w.node.cn now).1.nonces (slot n.nonceIndex) = n ∧
          tsisset n.validUntil = true at found
      simp only [KeyNode.step, Crypto.rrCnKeygenToken] at taken
      rcases asked : getValidNonce w.node.cn now with ⟨s, _ | n⟩
      · simp only [asked] at taken
        cases taken
      · simp only [asked] at taken changed found
        cases taken
        obtain ⟨isHere, isSet⟩ := found n rfl
        refine ⟨changed, rfl, Or.inr ⟨addr, bit, slot n.nonceIndex, ?_, ?_, ?_⟩⟩
        · rw [isHere]
          exact isSet
        · rw [isHere]
        · rw [isHere]
  | other input =>
      simp only [KeyNode.step] at taken
      split at taken
      · cases taken
      · rename_i node stepped
        cases taken
        obtain ⟨changed, clock⟩ := Node.changed epoch stepped
        exact ⟨changed, clock, Or.inl rfl⟩

theorem KeyNode.keysOk_step {input : KeyInput}
    (ok : w.node.cn.regenerations < 65000 → KeysOk c w.node.cn w.issued)
    (epoch : 0 < input.now.tvSec) (taken : w.step c conf authentic input = .ok w')
    (few : w'.node.cn.regenerations < 65000) : KeysOk c w'.node.cn w'.issued := by
  obtain ⟨changed, -, issued⟩ := KeyNode.stepped epoch taken
  have next := (ok (changed.few few)).changed changed few
  rcases issued with same | ⟨addr, bit, i, isSet, inPlace, more⟩
  · rw [same]
    exact next
  · refine ⟨next.indices, next.drawn, ?_⟩
    intro iss member
    rw [more] at member
    rcases List.mem_cons.mp member with rfl | earlier
    · constructor
      · exact next.drawn i
      · exact isSet
      · rfl
      · intro _
        simp only [inPlace, and_self]
      · intro away
        simp [Issued.regenerated, inPlace] at away
    · exact next.kept iss earlier

theorem KeyNode.keysOk {inputs : List KeyInput} (epoch : ∀ input ∈ inputs, 0 < input.now.tvSec)
    (finished : run (KeyNode.step c conf authentic) KeyNode.init inputs = .ok w)
    (few : w.node.cn.regenerations < 65000) : KeysOk c w.node.cn w.issued := by
  have start : KeysOk c KeyNode.init.node.cn KeyNode.init.issued :=
    ⟨indicesOk_init, by decide, fun iss member => by cases member⟩
  exact run_invariant (fun _ _ _ ok isPast taken => KeyNode.keysOk_step ok isPast taken)
    (fun _ => start) (meets_of_mem epoch _) finished few

def KeyNode.Forward (w : KeyNode) (input : KeyInput) : Prop :=
  tsbefore w.node.clock input.now = false

instance (w : KeyNode) (input : KeyInput) : Decidable (w.Forward input) :=
  inferInstanceAs (Decidable (_ = _))

def KeyNode.Lapses (w : KeyNode) : Prop :=
  ∀ iss ∈ w.issued, iss.regenerated w.node.cn = true →
    tsbefore iss.validUntil w.node.clock = false

theorem tsbefore_of_later {time clock now : Timespec} (passed : tsbefore time clock = false)
    (forward : tsbefore clock now = false) : tsbefore time now = false := by
  simp only [tsbefore] at passed forward ⊢
  split at passed <;> split at forward <;> split <;> simp_all <;> omega

theorem KeyNode.lapses_step {input : KeyInput} (ok : KeysOk c w.node.cn w.issued)
    (lapses : w.Lapses) (epoch : 0 < input.now.tvSec) (forward : w.Forward input)
    (taken : w.step c conf authentic input = .ok w') : w'.Lapses := by
  obtain ⟨changed, clock, issued⟩ := KeyNode.stepped epoch taken
  have earlier : ∀ iss ∈ w.issued, iss.regenerated w'.node.cn = true →
      tsbefore iss.validUntil w'.node.clock = false := by
    intro iss member away
    rw [clock]
    by_cases before : iss.regenerated w.node.cn = true
    · exact tsbefore_of_later (lapses iss member before) forward
    · cases changed with
      | searched indices searched within =>
          rw [Issued.regenerated, (searched.nonce _).1] at away
          exact absurd away before
      | regen i isSet due next =>
          rw [next] at away
          by_cases here : slot iss.index = i
          · have current := (ok.kept iss member).current (by simpa using before)
            rw [here] at current
            rw [← current.2]
            exact due
          · rw [Issued.regenerated, Issued.regenerated_elsewhere here] at away
            exact absurd away before
  rcases issued with same | ⟨addr, bit, i, -, inPlace, more⟩
  · intro iss member
    rw [same] at member
    exact earlier iss member
  · intro iss member away
    rw [more] at member
    rcases List.mem_cons.mp member with rfl | old
    · simp [Issued.regenerated, inPlace] at away
    · exact earlier iss old away

theorem KeyNode.lapses {inputs : List KeyInput}
    (forward : Meets (KeyNode.step c conf authentic) KeyNode.Forward KeyNode.init inputs)
    (finished : run (KeyNode.step c conf authentic) KeyNode.init inputs = .ok w)
    (few : w.node.cn.regenerations < 65000) : w.Lapses := by
  have start : KeysOk c KeyNode.init.node.cn KeyNode.init.issued :=
    ⟨indicesOk_init, by decide, fun iss member => by cases member⟩
  let held (w : KeyNode) : Prop := 0 < w.node.clock.tvSec ∧
    (w.node.cn.regenerations < 65000 → KeysOk c w.node.cn w.issued ∧ w.Lapses)
  have keeps : ∀ w input w', held w → KeyNode.Forward w input →
      w.step c conf authentic input = .ok w' → held w' := by
    intro w input w' ok isForward taken
    have epoch : 0 < input.now.tvSec := by
      have notBefore : tsbefore w.node.clock input.now = false := isForward
      have started := ok.1
      simp only [tsbefore] at notBefore
      split at notBefore <;> simp at notBefore <;> omega
    obtain ⟨changed, clock, -⟩ := KeyNode.stepped epoch taken
    refine ⟨clock ▸ epoch, ?_⟩
    intro fewAfter
    obtain ⟨keys, lapses⟩ := ok.2 (changed.few fewAfter)
    exact ⟨KeyNode.keysOk_step (fun _ => keys) epoch taken fewAfter,
      KeyNode.lapses_step keys lapses epoch isForward taken⟩
  have begins : held KeyNode.init :=
    ⟨by decide, fun _ => ⟨start, fun iss member => by cases member⟩⟩
  have kept : held w := run_invariant keeps begins forward finished
  exact (kept.2 few).2

end Steps

/-! ## Agreement -/

/-- What `rr_cn_calc_Kbm` answers: the mobile node's key, or which nonce is no
longer valid. -/
def agreed (c : Crypto) (s : State) (now : Timespec) (home careOf : Issued) :
    Except BasStatus (List UInt8) :=
  match home.valid s now, careOf.valid s now with
  | true, true => .ok (c.rrMnCalcKbm home.token (some careOf.token))
  | true, false => .error .coaNiExpired
  | false, true => .error .homeNiExpired
  | false, false => .error .niExpired

def agreedHome (c : Crypto) (s : State) (now : Timespec) (home : Issued) :
    Except BasStatus (List UInt8) :=
  if home.valid s now then .ok (c.rrMnCalcKbm home.token none) else .error .homeNiExpired

theorem rrCnCalcKbm_agreed {c : Crypto} {s : State} {home careOf : Issued}
    (keptHome : home.Kept c s) (isHome : home.bit = 0) (keptCareOf : careOf.Kept c s)
    (isCareOf : careOf.bit = 1) (now : Timespec) :
    c.rrCnCalcKbm s now home.index careOf.index home.addr (some careOf.addr) =
      agreed c s now home careOf := by
  obtain ⟨homeFound, homeMissing⟩ := keptHome.validates now
  obtain ⟨careOfFound, careOfMissing⟩ := keptCareOf.validates now
  have homeToken := keptHome.token
  have careOfToken := keptCareOf.token
  rw [isHome] at homeToken
  rw [isCareOf] at careOfToken
  simp only [Crypto.rrCnCalcKbm, Cn.rrCnCalcKbm, Option.map_some, agreed]
  cases homeValid : home.valid s now with
  | true =>
      obtain ⟨n, isHere, nonce⟩ := homeFound homeValid
      cases careOfValid : careOf.valid s now with
      | true =>
          obtain ⟨n', isThere, nonce'⟩ := careOfFound careOfValid
          simp only [isHere, isThere, nonce, nonce', homeToken, careOfToken]
      | false => simp only [isHere, careOfMissing careOfValid]
  | false =>
      cases careOfValid : careOf.valid s now with
      | true =>
          obtain ⟨n', isThere, -⟩ := careOfFound careOfValid
          simp only [homeMissing homeValid, isThere]
      | false => simp only [homeMissing homeValid, careOfMissing careOfValid]

theorem rrCnCalcKbm_agreedHome {c : Crypto} {s : State} {home : Issued}
    (kept : home.Kept c s) (isHome : home.bit = 0) (now : Timespec) (coaNonceInd : UInt16) :
    c.rrCnCalcKbm s now home.index coaNonceInd home.addr none = agreedHome c s now home := by
  obtain ⟨found, missing⟩ := kept.validates now
  have token := kept.token
  rw [isHome] at token
  simp only [Crypto.rrCnCalcKbm, Cn.rrCnCalcKbm, Option.map_none, agreedHome]
  cases valid : home.valid s now with
  | true =>
      obtain ⟨n, isHere, nonce⟩ := found valid
      simp only [isHere, nonce, token, if_true]
  | false =>
      simp only [missing valid]
      rfl

/-- Both sides have the same key as long as both nonces are valid, and otherwise
the answer names the nonces that are not.  While the clock is not set back, no
nonce is given up before its time. -/
theorem keys_agree (c : Crypto) (conf : CnConf) (authentic : Authentic) (inputs : List KeyInput)
    (epoch : ∀ input ∈ inputs, 0 < input.now.tvSec) (w : KeyNode)
    (finished : run (KeyNode.step c conf authentic) KeyNode.init inputs = .ok w)
    (few : w.node.cn.regenerations < 65000) (home careOf : Issued) (homeIssued : home ∈ w.issued)
    (isHome : home.bit = 0) (careOfIssued : careOf ∈ w.issued) (isCareOf : careOf.bit = 1)
    (now : Timespec) :
    c.rrCnCalcKbm w.node.cn now home.index careOf.index home.addr (some careOf.addr) =
        agreed c w.node.cn now home careOf ∧
      c.rrCnCalcKbm w.node.cn now home.index 0 home.addr none =
        agreedHome c w.node.cn now home ∧
      (Meets (KeyNode.step c conf authentic) KeyNode.Forward KeyNode.init inputs →
        tsbefore w.node.clock now = false → ∀ iss ∈ w.issued,
          tsbefore iss.validUntil now = true → iss.valid w.node.cn now = true) := by
  have ok := KeyNode.keysOk epoch finished few
  refine ⟨?_, ?_, ?_⟩
  · exact rrCnCalcKbm_agreed (ok.kept home homeIssued) isHome (ok.kept careOf careOfIssued)
      isCareOf now
  · exact rrCnCalcKbm_agreedHome (ok.kept home homeIssued) isHome now 0
  · intro forward later iss member ahead
    have stays : iss.regenerated w.node.cn = false := by
      by_contra away
      have lapsed := KeyNode.lapses forward finished few iss member (by simpa using away)
      rw [tsbefore_of_later lapsed later] at ahead
      cases ahead
    have notAfter : tsafter iss.validUntil now = false := by
      simp only [tsbefore, tsafter] at ahead ⊢
      split at ahead <;> simp_all <;> omega
    simp only [Issued.valid, stays, notAfter, Bool.not_false, Bool.and_self]

/-- The hash is the last eight bytes, in reverse: the identifier and the nonce
come first. -/
def plain : Crypto where
  hmacSha1 := fun _ text => text.reverse
  sha1 := id
  keyCn := []
  randBytes := fun nonce => List.replicate 7 0 ++ [UInt8.ofNat nonce]

/-- A token for each address, half a minute apart: the first nonce is too close
to its end for the second token. -/
def twoTokens : List KeyInput :=
  [.token ⟨100, 0⟩ in6addrAny 0, .token ⟨131, 0⟩ in6addrLoopback 1]

theorem keys_agree_in_time :
    ∃ w home careOf, run (KeyNode.step plain ⟨true, [], fun _ => false⟩ fun _ _ _ _ _ => false)
        KeyNode.init twoTokens = .ok w ∧ w.issued = [careOf, home] ∧
      home.index = 1 ∧ careOf.index = 2 ∧
      plain.rrCnCalcKbm w.node.cn ⟨340, 0⟩ 1 2 in6addrAny (some in6addrLoopback) =
        .ok (plain.rrMnCalcKbm home.token (some careOf.token)) ∧
      plain.rrCnCalcKbm w.node.cn ⟨341, 0⟩ 1 2 in6addrAny (some in6addrLoopback) =
        .error .homeNiExpired := by
  refine ⟨_, _, _, rfl, rfl, rfl, rfl, ?_, ?_⟩
  · exact (keys_agree plain ⟨true, [], fun _ => false⟩ (fun _ _ _ _ _ => false) twoTokens
      (by decide) _ rfl (by decide) _ _ (List.mem_cons_of_mem _ List.mem_cons_self) rfl
      List.mem_cons_self rfl ⟨340, 0⟩).1.trans (by decide)
  · exact (keys_agree plain ⟨true, [], fun _ => false⟩ (fun _ _ _ _ _ => false) twoTokens
      (by decide) _ rfl (by decide) _ _ (List.mem_cons_of_mem _ List.mem_cons_self) rfl
      List.mem_cons_self rfl ⟨341, 0⟩).1.trans (by decide)

end OaiPmip.Cn
