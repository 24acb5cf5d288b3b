import OaiPmip.Lib.Loops
import OaiPmip.Lib.Records
import OaiPmip.Lib.Wire
import OaiPmip.Msgs

/-!
# Options of mobile prefix advertisements, mpd_recv_mpa of mpdisc_mn.c

The loop goes from option to option and turns the lifetimes of a prefix
information to host order where they lie.  Two of its ways through the body go
on without a step to the next option.
-/

set_option autoImplicit false

namespace OaiPmip.Mpd

open OaiPmip.Loops OaiPmip.Msgs OaiPmip.Records OaiPmip.Wire

/-- A read or a write that is not in the message. -/
inductive Fault where
  | outside
  deriving DecidableEq

/-- What `mn_update_home_prefix` reads of `struct nd_opt_prefix_info`. -/
structure NdOptPrefixInfo where
  prefixLen : UInt8
  validTime : UInt32
  preferredTime : UInt32
  address : In6Addr
  deriving DecidableEq

/-- `opt` is the offset into the message; `updates` has the calls of
`mn_update_home_prefix`, with the pointer and what is found there. -/
structure Walk where
  mem : Buffer
  len : Nat
  opt : Nat
  optlen : Int
  updates : List (Nat × NdOptPrefixInfo)

def sizeofIcmp6Hdr : Nat := 8

def sizeofPrefixInfo : Nat := 32

def ndOptPrefixInformation : UInt8 := 3

def Walk.start (msg : List UInt8) : Walk where
  mem := fun i => msg.getD i 0
  len := msg.length
  opt := sizeofIcmp6Hdr
  optlen := msg.length - sizeofIcmp6Hdr
  updates := []

section Loop
variable (order : ByteOrder)

def word (mem : Buffer) (i : Nat) : UInt32 :=
  order.load32 (mem i) (mem (i + 1)) (mem (i + 2)) (mem (i + 3))

def Walk.readByte (w : Walk) (i : Nat) : Except Fault UInt8 :=
  if i < w.len then .ok (w.mem i) else .error .outside

def Walk.readWord (w : Walk) (i : Nat) : Except Fault UInt32 :=
  if i + 4 ≤ w.len then .ok (word order w.mem i) else .error .outside

def Walk.writeWord (w : Walk) (i : Nat) (x : UInt32) : Except Fault Walk :=
  if i + 4 ≤ w.len then .ok { w with mem := overwrite w.mem i (order.store32 x) }
  else .error .outside

def Walk.readAddr (w : Walk) (i : Nat) : Except Fault In6Addr :=
  if i + 16 ≤ w.len then .ok (copy 16 w.mem i) else .error .outside

def Walk.ntohl (w : Walk) (i : Nat) : Except Fault Walk := do
  let x ← w.readWord order i
  w.writeWord order i (order.net32 x)

def Walk.readInfo (w : Walk) : Except Fault NdOptPrefixInfo := do
  let prefixLen ← w.readByte (w.opt + 2)
  let validTime ← w.readWord order (w.opt + 4)
  let preferredTime ← w.readWord order (w.opt + 8)
  let address ← w.readAddr (w.opt + 16)
  return ⟨prefixLen, validTime, preferredTime, address⟩

def Walk.advance (w : Walk) (olen : Nat) : Walk :=
  { w with opt := w.opt + olen, optlen := w.optlen - olen }

/-- The branch for `ND_OPT_PREFIX_INFORMATION`; a `continue` goes on with the
same `opt`. -/
def prefixInformation (w : Walk) (olen : Nat) : Except Fault (Turn Walk Walk) :=
  if olen < sizeofPrefixInfo then .ok (.again w)
  else do
    let w ← w.ntohl order (w.opt + 4)
    let w ← w.ntohl order (w.opt + 8)
    let validTime ← w.readWord order (w.opt + 4)
    let preferredTime ← w.readWord order (w.opt + 8)
    if validTime < preferredTime then return .again w
    else
      let pinfo ← w.readInfo order
      return .again ({ w with updates := w.updates ++ [(w.opt, pinfo)] }.advance olen)

def turn (w : Walk) : Except Fault (Turn Walk Walk) :=
  if w.optlen > 1 then do
    let units ← w.readByte (w.opt + 1)
    let olen := units.toNat * 8
    if (olen : Int) > w.optlen ∨ olen = 0 then return .done w
    else
      let type ← w.readByte w.opt
      if type = ndOptPrefixInformation then prefixInformation order w olen
      else return .again (w.advance olen)
  else return .done w

end Loop

section Options
variable (mem : Buffer)

def sizeAt (i : Nat) : Nat := (mem (i + 1)).toNat * 8

def optionFraming : Framing where
  size := fun i => if sizeAt mem i = 0 then 1 else sizeAt mem i
  pos := by
    intro i
    by_cases none_ : sizeAt mem i = 0
    · rw [if_pos none_]
      decide
    · rw [if_neg none_]
      exact Nat.pos_of_ne_zero none_

def WellFormed (len i : Nat) : Prop :=
  i + 1 < len ∧ sizeAt mem i ≠ 0 ∧ i + sizeAt mem i ≤ len

instance (len i : Nat) : Decidable (WellFormed mem len i) := inferInstanceAs (Decidable (_ ∧ _))

/-- Before the first malformed length, from the offset `i` on. -/
def optionsFrom (len i : Nat) : List Nat :=
  ((optionFraming mem).offsets i len).takeWhile fun j => WellFormed mem len j

def IsPrefixInfo (i : Nat) : Prop := mem i = ndOptPrefixInformation

def netWord (i : Nat) : UInt32 := join32 (mem i) (mem (i + 1)) (mem (i + 2)) (mem (i + 3))

def Acceptable (i : Nat) : Prop :=
  IsPrefixInfo mem i ∧ sizeofPrefixInfo ≤ sizeAt mem i ∧
    netWord mem (i + 8) ≤ netWord mem (i + 4)

instance (i : Nat) : Decidable (IsPrefixInfo mem i) := inferInstanceAs (Decidable (_ = _))

instance (i : Nat) : Decidable (Acceptable mem i) := inferInstanceAs (Decidable (_ ∧ _))

def sentInfo (i : Nat) : NdOptPrefixInfo where
  prefixLen := mem (i + 2)
  validTime := netWord mem (i + 4)
  preferredTime := netWord mem (i + 8)
  address := copy 16 mem (i + 16)

def updatesFrom (len i : Nat) : List (Nat × NdOptPrefixInfo) :=
  ((optionsFrom mem len i).filter fun j => Acceptable mem j).map fun j => (j, sentInfo mem j)

variable {mem} {len i : Nat}

theorem optionsFrom_stop (stops : ¬WellFormed mem len i) : optionsFrom mem len i = [] := by
  by_cases inside : i < len
  · rw [optionsFrom, Framing.offsets_cons _ inside]
    exact List.takeWhile_cons_of_neg (by simpa using stops)
  · rw [optionsFrom, Framing.offsets_nil _ (by omega), List.takeWhile_nil]

theorem optionsFrom_cons (wellFormed : WellFormed mem len i) :
    optionsFrom mem len i = i :: optionsFrom mem len (i + sizeAt mem i) := by
  have inside := wellFormed.1
  have size : (optionFraming mem).size i = sizeAt mem i := if_neg wellFormed.2.1
  rw [optionsFrom, Framing.offsets_cons _ (by omega), size]
  exact List.takeWhile_cons_of_pos (by simpa using wellFormed)

theorem optionsFrom_induction (mem : Buffer) (len : Nat) {motive : Nat → Prop}
    (stop : ∀ i, ¬WellFormed mem len i → motive i)
    (option : ∀ i, WellFormed mem len i → motive (i + sizeAt mem i) → motive i) (i : Nat) :
    motive i := by
  induction i using (optionFraming mem).offsets_induction len with
  | ends i outside => exact stop i fun wellFormed => absurd wellFormed.1 (by omega)
  | record i inside ih =>
      by_cases wellFormed : WellFormed mem len i
      · have size : (optionFraming mem).size i = sizeAt mem i := if_neg wellFormed.2.1
        rw [size] at ih
        exact option i wellFormed ih
      · exact stop i wellFormed

end Options

section Conversion
variable (order : ByteOrder) (mem : Buffer)

/-- Memory after `ntohl` on the word at `i`. -/
def inHostOrder (i : Nat) : Buffer :=
  overwrite mem i (order.store32 (order.net32 (word order mem i)))

/-- Memory after both lifetimes of the option at `i` are converted. -/
def converted (i : Nat) : Buffer := inHostOrder order (inHostOrder order mem (i + 4)) (i + 8)

variable {order mem}

theorem inHostOrder_outside {i j : Nat} (outside : j < i ∨ i + 4 ≤ j) :
    inHostOrder order mem i j = mem j := by
  have size : (order.store32 (order.net32 (word order mem i))).length = 4 := by
    cases order with
    | little => rfl
    | big => rfl
  rcases outside with before | after
  · exact overwrite_before _ before
  · exact overwrite_after (by omega)

theorem word_congr {other : Buffer} {i : Nat} (same : ∀ k, k < 4 → other (i + k) = mem (i + k)) :
    word order other i = word order mem i := by
  have first : other i = mem i := same 0 (by decide)
  rw [word, word, first, same 1 (by decide), same 2 (by decide), same 3 (by decide)]

theorem net32_word (i : Nat) : order.net32 (word order mem i) = netWord mem i :=
  net32_load32 order _ _ _ _

theorem word_inHostOrder (i : Nat) : word order (inHostOrder order mem i) i = netWord mem i := by
  rw [← net32_word]
  exact load32_store32 order _ (holds_overwrite mem i _)

theorem converted_outside {i j : Nat} (outside : j < i + 4 ∨ i + 12 ≤ j) :
    converted order mem i j = mem j := by
  rw [converted, inHostOrder_outside (by omega), inHostOrder_outside (by omega)]

theorem word_converted_valid (i : Nat) :
    word order (converted order mem i) (i + 4) = netWord mem (i + 4) := by
  rw [← word_inHostOrder]
  apply word_congr
  intro k small
  exact inHostOrder_outside (by omega)

theorem word_converted_preferred (i : Nat) :
    word order (converted order mem i) (i + 8) = netWord mem (i + 8) := by
  rw [converted, word_inHostOrder, ← @net32_word order, ← @net32_word order]
  congr 1
  apply word_congr
  intro k small
  exact inHostOrder_outside (by omega)

theorem netWord_converted_valid (i : Nat) :
    netWord (converted order mem i) (i + 4) = word order mem (i + 4) := by
  rw [← @net32_word order, word_converted_valid, ← @net32_word order, net32_net32]

theorem netWord_converted_preferred (i : Nat) :
    netWord (converted order mem i) (i + 8) = word order mem (i + 8) := by
  rw [← @net32_word order, word_converted_preferred, ← @net32_word order, net32_net32]

end Conversion

/-! ## One turn -/

section OneTurn
variable {order : ByteOrder} {w : Walk}

/-- What is left is what is behind `opt`. -/
def Level (w : Walk) : Prop := w.optlen = w.len - w.opt

def Walk.converted (order : ByteOrder) (w : Walk) : Walk :=
  { w with mem := Mpd.converted order w.mem w.opt }

def Walk.accept (order : ByteOrder) (w : Walk) : Walk :=
  let updated := { w.converted order with
    updates := w.updates ++ [(w.opt, sentInfo w.mem w.opt)] }
  updated.advance (sizeAt w.mem w.opt)

theorem readByte_inside {i : Nat} (inside : i < w.len) : w.readByte i = .ok (w.mem i) :=
  if_pos inside

theorem ntohl_inside {i : Nat} (inside : i + 4 ≤ w.len) :
    w.ntohl order i = .ok { w with mem := inHostOrder order w.mem i } := by
  simp only [Walk.ntohl, Walk.readWord, if_pos inside, Walk.writeWord, inHostOrder]
  rfl

theorem turn_stops (level : Level w) (stops : ¬WellFormed w.mem w.len w.opt) :
    turn order w = .ok (.done w) := by
  rw [Level] at level
  by_cases left : w.optlen > 1
  · have malformed : (sizeAt w.mem w.opt : Int) > w.optlen ∨ sizeAt w.mem w.opt = 0 := by
      simp only [WellFormed] at stops
      omega
    rw [turn, if_pos left, readByte_inside (by omega)]
    exact if_pos malformed
  · rw [turn, if_neg left]
    rfl

theorem turn_option (level : Level w) (wellFormed : WellFormed w.mem w.len w.opt) :
    turn order w =
      if IsPrefixInfo w.mem w.opt then prefixInformation order w (sizeAt w.mem w.opt)
      else .ok (.again (w.advance (sizeAt w.mem w.opt))) := by
  obtain ⟨inside, sized, fits⟩ := wellFormed
  rw [Level] at level
  have left : w.optlen > 1 := by omega
  have proper : ¬((sizeAt w.mem w.opt : Int) > w.optlen ∨ sizeAt w.mem w.opt = 0) := by omega
  rw [turn, if_pos left, readByte_inside inside]
  refine (if_neg proper).trans ?_
  rw [readByte_inside (by omega)]
  rfl

/-- Room for a whole `struct nd_opt_prefix_info`. -/
def Roomy (w : Walk) : Prop :=
  sizeofPrefixInfo ≤ sizeAt w.mem w.opt ∧ w.opt + sizeofPrefixInfo ≤ w.len

theorem readWord_valid (fits : w.opt + 32 ≤ w.len) :
    (w.converted order).readWord order (w.opt + 4) = .ok (netWord w.mem (w.opt + 4)) := by
  rw [← @word_converted_valid order]
  exact if_pos (by simp only [Walk.converted]; omega)

theorem readWord_preferred (fits : w.opt + 32 ≤ w.len) :
    (w.converted order).readWord order (w.opt + 8) = .ok (netWord w.mem (w.opt + 8)) := by
  rw [← @word_converted_preferred order]
  exact if_pos (by simp only [Walk.converted]; omega)

theorem readInfo_converted (fits : w.opt + 32 ≤ w.len) :
    (w.converted order).readInfo order = .ok (sentInfo w.mem w.opt) := by
  have byte : (w.converted order).readByte (w.opt + 2) = .ok (w.mem (w.opt + 2)) := by
    rw [← @converted_outside order w.mem w.opt (w.opt + 2) (by omega)]
    exact if_pos (by simp only [Walk.converted]; omega)
  have address : (w.converted order).readAddr (w.opt + 16) =
      .ok (copy 16 w.mem (w.opt + 16)) := by
    have same : copy 16 (w.converted order).mem (w.opt + 16) = copy 16 w.mem (w.opt + 16) := by
      apply Octets.ext_bytes
      simp only [copy, Walk.converted]
      exact List.map_congr_left fun k _ => converted_outside (by omega)
    rw [← same]
    exact if_pos (by simp only [Walk.converted]; omega)
  change (w.converted order).readByte (w.opt + 2) >>= _ = _
  rw [byte]
  change (w.converted order).readWord order (w.opt + 4) >>= _ = _
  rw [readWord_valid fits]
  change (w.converted order).readWord order (w.opt + 8) >>= _ = _
  rw [readWord_preferred fits]
  change (w.converted order).readAddr (w.opt + 16) >>= _ = _
  rw [address]
  rfl

theorem prefixInformation_roomy (roomy : Roomy w) :
    prefixInformation order w (sizeAt w.mem w.opt) =
      if netWord w.mem (w.opt + 4) < netWord w.mem (w.opt + 8)
      then .ok (.again (w.converted order)) else .ok (.again (w.accept order)) := by
  obtain ⟨sized, fits⟩ := roomy
  simp only [sizeofPrefixInfo] at sized fits
  have long : ¬sizeAt w.mem w.opt < sizeofPrefixInfo := Nat.not_lt.mpr sized
  let half : Walk := { w with mem := inHostOrder order w.mem (w.opt + 4) }
  have first : w.ntohl order (w.opt + 4) = .ok half := ntohl_inside (by omega)
  have second : half.ntohl order (half.opt + 8) = .ok (w.converted order) :=
    ntohl_inside (by simp only [half]; omega)
  rw [prefixInformation, if_neg long, first]
  change half.ntohl order (half.opt + 8) >>= _ = _
  rw [second]
  change (w.converted order).readWord order (w.opt + 4) >>= _ = _
  rw [readWord_valid fits]
  change (w.converted order).readWord order (w.opt + 8) >>= _ = _
  rw [readWord_preferred fits]
  change (if _ then _ else (w.converted order).readInfo order >>= _) = _
  rw [readInfo_converted fits]
  rfl

theorem WellFormed.roomy (wellFormed : WellFormed w.mem w.len w.opt)
    (sized : sizeofPrefixInfo ≤ sizeAt w.mem w.opt) : Roomy w := by
  have fits := wellFormed.2.2
  exact ⟨sized, by omega⟩

theorem turn_other (level : Level w) (wellFormed : WellFormed w.mem w.len w.opt)
    (other : ¬IsPrefixInfo w.mem w.opt) :
    turn order w = .ok (.again (w.advance (sizeAt w.mem w.opt))) := by
  rw [turn_option level wellFormed, if_neg other]

theorem turn_short (level : Level w) (wellFormed : WellFormed w.mem w.len w.opt)
    (isInfo : IsPrefixInfo w.mem w.opt) (short : sizeAt w.mem w.opt < sizeofPrefixInfo) :
    turn order w = .ok (.again w) := by
  rw [turn_option level wellFormed, if_pos isInfo, prefixInformation, if_pos short]

theorem turn_reversed (level : Level w) (wellFormed : WellFormed w.mem w.len w.opt)
    (isInfo : IsPrefixInfo w.mem w.opt) (sized : sizeofPrefixInfo ≤ sizeAt w.mem w.opt)
    (reversed : netWord w.mem (w.opt + 4) < netWord w.mem (w.opt + 8)) :
    turn order w = .ok (.again (w.converted order)) := by
  rw [turn_option level wellFormed, if_pos isInfo,
    prefixInformation_roomy (wellFormed.roomy sized), if_pos reversed]

theorem turn_accepts (level : Level w) (wellFormed : WellFormed w.mem w.len w.opt)
    (isInfo : IsPrefixInfo w.mem w.opt) (sized : sizeofPrefixInfo ≤ sizeAt w.mem w.opt)
    (inOrder : ¬netWord w.mem (w.opt + 4) < netWord w.mem (w.opt + 8)) :
    turn order w = .ok (.again (w.accept order)) := by
  rw [turn_option level wellFormed, if_pos isInfo,
    prefixInformation_roomy (wellFormed.roomy sized), if_neg inOrder]

theorem Level.advance (level : Level w) (olen : Nat) : Level (w.advance olen) := by
  simp only [Level, Walk.advance] at level ⊢
  push_cast
  omega

/-- A turn reads and writes in the message only, and forgets no update. -/
theorem turn_cases (order : ByteOrder) (level : Level w) :
    turn order w = .ok (.done w) ∨ ∃ next, turn order w = .ok (.again next) ∧
      Level next ∧ w.updates ⊆ next.updates := by
  by_cases wellFormed : WellFormed w.mem w.len w.opt
  · right
    by_cases isInfo : IsPrefixInfo w.mem w.opt
    · by_cases sized : sizeofPrefixInfo ≤ sizeAt w.mem w.opt
      · by_cases reversed : netWord w.mem (w.opt + 4) < netWord w.mem (w.opt + 8)
        · exact ⟨_, turn_reversed level wellFormed isInfo sized reversed, level,
            List.Subset.refl _⟩
        · exact ⟨_, turn_accepts level wellFormed isInfo sized reversed, Level.advance level _,
            List.subset_append_left _ _⟩
      · exact ⟨w, turn_short level wellFormed isInfo (Nat.not_le.mp sized), level,
          List.Subset.refl _⟩
    · exact ⟨_, turn_other level wellFormed isInfo, level.advance _, List.Subset.refl _⟩
  · exact .inl (turn_stops level wellFormed)

/-- However the loop ends, it has read in the message only and has made the calls
that were made before. -/
theorem ends_inside (level : Level w) {outcome : Except Fault Walk}
    (ends : Ends (turn order) w outcome) :
    ∃ last, outcome = .ok last ∧ w.updates ⊆ last.updates := by
  obtain ⟨last, ⟨lastLevel, kept⟩, lastEnds, stops⟩ := @Ends.invariant _ _ _ (turn order)
    (fun s => Level s ∧ w.updates ⊆ s.updates) w outcome (by
      intro s next held taken
      obtain ⟨here, kept⟩ := held
      rcases turn_cases order here with done_ | ⟨other, again, otherLevel, more⟩
      · rw [done_] at taken
        cases taken
      · rw [again] at taken
        cases taken
        exact ⟨otherLevel, List.Subset.trans kept more⟩) ⟨level, List.Subset.refl _⟩ ends
  rcases turn_cases order lastLevel with done_ | ⟨next, again, -⟩
  · exact ⟨last, (ends_done done_).mp lastEnds, kept⟩
  · exact absurd again (stops next)

end OneTurn

section Walk
variable {order : ByteOrder} {mem : Buffer} {len i : Nat} {w : Walk}

/-- The loop has got to the offset `i` of the message. -/
structure At (mem : Buffer) (len i : Nat) (w : Walk) : Prop where
  opt : w.opt = i
  len : w.len = len
  level : Level w
  same : ∀ j, i ≤ j → w.mem j = mem j

theorem At.size (at_ : At mem len i w) : sizeAt w.mem w.opt = sizeAt mem i := by
  rw [sizeAt, at_.opt, at_.same (i + 1) (by omega), sizeAt]

theorem At.wellFormed (at_ : At mem len i w) :
    WellFormed w.mem w.len w.opt ↔ WellFormed mem len i := by
  rw [WellFormed, WellFormed, at_.size, at_.opt, at_.len]

theorem At.isPrefixInfo (at_ : At mem len i w) :
    IsPrefixInfo w.mem w.opt ↔ IsPrefixInfo mem i := by
  rw [IsPrefixInfo, IsPrefixInfo, at_.opt, at_.same i (Nat.le_refl i)]

theorem At.netWord (at_ : At mem len i w) (k : Nat) :
    netWord w.mem (w.opt + k) = netWord mem (i + k) := by
  rw [Mpd.netWord, Mpd.netWord, at_.opt, at_.same _ (by omega), at_.same _ (by omega),
    at_.same _ (by omega), at_.same _ (by omega)]

theorem At.sentInfo (at_ : At mem len i w) : sentInfo w.mem w.opt = sentInfo mem i := by
  have address : copy 16 w.mem (w.opt + 16) = copy 16 mem (i + 16) := by
    apply Octets.ext_bytes
    simp only [copy, at_.opt]
    exact List.map_congr_left fun k _ => at_.same _ (by omega)
  rw [Mpd.sentInfo, Mpd.sentInfo, at_.netWord, at_.netWord, address, at_.opt,
    at_.same _ (by omega)]

theorem At.advance (at_ : At mem len i w) : At mem len (i + sizeAt mem i)
    (w.advance (sizeAt w.mem w.opt)) where
  opt := by
    rw [at_.size]
    exact congrArg (· + sizeAt mem i) at_.opt
  len := at_.len
  level := at_.level.advance _
  same := fun j after => at_.same j (by omega)

theorem At.accept (at_ : At mem len i w) (sized : sizeofPrefixInfo ≤ sizeAt mem i) :
    At mem len (i + sizeAt mem i) (w.accept order) where
  opt := by
    rw [← at_.size]
    exact congrArg (· + sizeAt w.mem w.opt) at_.opt
  len := at_.len
  level := Level.advance (w := w.converted order) at_.level _
  same := by
    intro j after
    have past : i + 32 ≤ j := Nat.le_trans (Nat.add_le_add_left sized i) after
    have opt := at_.opt
    exact (converted_outside (by omega)).trans (at_.same j (by omega))

theorem At.accept_updates (at_ : At mem len i w) :
    (w.accept order).updates = w.updates ++ [(i, Mpd.sentInfo mem i)] := by
  rw [← at_.sentInfo]
  exact congrArg (fun opt => w.updates ++ [(opt, Mpd.sentInfo w.mem w.opt)]) at_.opt

theorem At.turn_accepts (order : ByteOrder) (at_ : At mem len i w)
    (wellFormed : WellFormed mem len i) (accepted : Acceptable mem i) :
    turn order w = .ok (.again (w.accept order)) := by
  obtain ⟨isInfo, sized, inOrder⟩ := accepted
  refine Mpd.turn_accepts at_.level (at_.wellFormed.mpr wellFormed)
    (at_.isPrefixInfo.mpr isInfo) ?_ ?_
  · rw [at_.size]
    exact sized
  · rw [at_.netWord, at_.netWord]
    exact UInt32.not_lt.mpr inOrder

theorem At.turn_other (order : ByteOrder) (at_ : At mem len i w)
    (wellFormed : WellFormed mem len i) (other : ¬IsPrefixInfo mem i) :
    turn order w = .ok (.again (w.advance (sizeAt w.mem w.opt))) :=
  Mpd.turn_other at_.level (at_.wellFormed.mpr wellFormed) (at_.isPrefixInfo.not.mpr other)

theorem walk_accepts (order : ByteOrder) (i : Nat) : ∀ {w : Walk}, At mem len i w →
    (∀ j ∈ optionsFrom mem len i, IsPrefixInfo mem j → Acceptable mem j) →
    ∃ last, Ends (turn order) w (.ok last) ∧
      last.updates = w.updates ++ updatesFrom mem len i := by
  induction i using optionsFrom_induction mem len with
  | stop i stops =>
      intro w at_ _
      refine ⟨w, (ends_done (turn_stops at_.level (at_.wellFormed.not.mpr stops))).mpr rfl, ?_⟩
      rw [updatesFrom, optionsFrom_stop stops]
      simp
  | option i wellFormed ih =>
      intro w at_ acceptable
      rw [optionsFrom_cons wellFormed] at acceptable
      have rest : ∀ j ∈ optionsFrom mem len (i + sizeAt mem i), IsPrefixInfo mem j →
          Acceptable mem j := fun j member => acceptable j (List.mem_cons_of_mem i member)
      by_cases isInfo : IsPrefixInfo mem i
      · have accepted := acceptable i List.mem_cons_self isInfo
        obtain ⟨last, ends, updates⟩ := ih (at_.accept accepted.2.1) rest
        refine ⟨last, (ends_again (at_.turn_accepts order wellFormed accepted)).mpr ends, ?_⟩
        rw [updates, at_.accept_updates, updatesFrom, updatesFrom, optionsFrom_cons wellFormed,
          List.filter_cons_of_pos (by simpa using accepted), List.map_cons, List.append_assoc,
          List.singleton_append]
      · obtain ⟨last, ends, updates⟩ := ih at_.advance rest
        have refused : ¬Acceptable mem i := fun accepted => isInfo accepted.1
        refine ⟨last, (ends_again (at_.turn_other order wellFormed isInfo)).mpr ends, ?_⟩
        rw [updates, updatesFrom, updatesFrom, optionsFrom_cons wellFormed,
          List.filter_cons_of_neg (by simpa using refused)]
        rfl

structure Stuck (order : ByteOrder) (w : Walk) : Prop where
  level : Level w
  wellFormed : WellFormed w.mem w.len w.opt
  isInfo : IsPrefixInfo w.mem w.opt
  sized : sizeofPrefixInfo ≤ sizeAt w.mem w.opt
  net : netWord w.mem (w.opt + 4) < netWord w.mem (w.opt + 8)
  host : word order w.mem (w.opt + 4) < word order w.mem (w.opt + 8)

theorem converted_option (w : Walk) :
    sizeAt (w.converted order).mem w.opt = sizeAt w.mem w.opt ∧
      (w.converted order).mem w.opt = w.mem w.opt := by
  have units : (w.converted order).mem (w.opt + 1) = w.mem (w.opt + 1) :=
    converted_outside (by omega)
  exact ⟨by rw [sizeAt, sizeAt, units], converted_outside (by omega)⟩

theorem Stuck.converted (stuck : Stuck order w) : Stuck order (w.converted order) := by
  obtain ⟨size, type⟩ := @converted_option order w
  refine ⟨stuck.level, ?_, ?_, ?_, ?_, ?_⟩
  · have wellFormed := stuck.wellFormed
    rw [WellFormed, ← size] at wellFormed
    exact wellFormed
  · exact type.trans stuck.isInfo
  · exact stuck.sized.trans_eq size.symm
  · have host := stuck.host
    rw [← netWord_converted_valid, ← netWord_converted_preferred] at host
    exact host
  · have net := stuck.net
    rw [← @word_converted_valid order, ← @word_converted_preferred order] at net
    exact net

theorem Stuck.never_ends (stuck : Stuck order w) (outcome : Except Fault Walk) :
    ¬Ends (turn order) w outcome := by
  refine Loops.never_ends ?_ stuck outcome
  intro s still
  exact ⟨_, turn_reversed still.level still.wellFormed still.isInfo still.sized still.net,
    still.converted⟩

/-- A prefix information that is not acceptable is never passed over: the loop
stays there or passes it on in the wrong byte order. -/
theorem refused_here (at_ : At mem len i w) (wellFormed : WellFormed mem len i)
    (isInfo : IsPrefixInfo mem i) (refused : ¬Acceptable mem i) {outcome : Except Fault Walk}
    (ends : Ends (turn order) w outcome) :
    ∃ last info, outcome = .ok last ∧ (i, info) ∈ last.updates := by
  have here := at_.wellFormed.mpr wellFormed
  have isHere := at_.isPrefixInfo.mpr isInfo
  by_cases sized : sizeofPrefixInfo ≤ sizeAt w.mem w.opt
  · have reversed : netWord w.mem (w.opt + 4) < netWord w.mem (w.opt + 8) := by
      rw [at_.size] at sized
      rw [at_.netWord, at_.netWord]
      exact UInt32.not_le.mp fun inOrder => refused ⟨isInfo, sized, inOrder⟩
    have taken := @turn_reversed order w at_.level here isHere sized reversed
    by_cases host : word order w.mem (w.opt + 4) < word order w.mem (w.opt + 8)
    · exact absurd ends (Stuck.never_ends ⟨at_.level, here, isHere, sized, reversed, host⟩ outcome)
    · -- the second conversion puts the bytes back, and now they are in order
      obtain ⟨size, type⟩ := @converted_option order w
      have again : turn order (w.converted order) =
          .ok (.again ((w.converted order).accept order)) := by
        refine turn_accepts at_.level ?_ (type.trans isHere) (sized.trans_eq size.symm) ?_
        · rw [WellFormed, ← size] at here
          exact here
        · rw [← netWord_converted_valid, ← netWord_converted_preferred] at host
          exact host
      have level : Level ((w.converted order).accept order) :=
        Level.advance (w := (w.converted order).converted order) at_.level _
      obtain ⟨last, isLast, kept⟩ :=
        ends_inside level ((ends_again again).mp ((ends_again taken).mp ends))
      refine ⟨last, sentInfo (w.converted order).mem w.opt, isLast, kept ?_⟩
      rw [← at_.opt]
      exact List.mem_append_right _ (List.mem_singleton.mpr rfl)
  · have short := @turn_short order w at_.level here isHere (Nat.not_le.mp sized)
    refine absurd ends (@Loops.never_ends _ _ _ (turn order) (fun s => s = w) ?_ w rfl outcome)
    intro s same
    subst same
    exact ⟨s, short, rfl⟩

theorem walk_refuses (order : ByteOrder) (i : Nat) : ∀ {w : Walk}, At mem len i w →
    (∃ j ∈ optionsFrom mem len i, IsPrefixInfo mem j ∧ ¬Acceptable mem j) →
    ∀ {outcome : Except Fault Walk}, Ends (turn order) w outcome →
      ∃ last j info, outcome = .ok last ∧ ¬Acceptable mem j ∧ (j, info) ∈ last.updates := by
  induction i using optionsFrom_induction mem len with
  | stop i stops =>
      intro w _ bad
      rw [optionsFrom_stop stops] at bad
      obtain ⟨j, none_, -⟩ := bad
      exact absurd none_ List.not_mem_nil
  | option i wellFormed ih =>
      intro w at_ bad outcome ends
      by_cases refused : IsPrefixInfo mem i ∧ ¬Acceptable mem i
      · obtain ⟨last, info, isLast, called⟩ :=
          refused_here at_ wellFormed refused.1 refused.2 ends
        exact ⟨last, i, info, isLast, refused.2, called⟩
      · have later : ∃ j ∈ optionsFrom mem len (i + sizeAt mem i),
            IsPrefixInfo mem j ∧ ¬Acceptable mem j := by
          obtain ⟨j, member, isBad⟩ := bad
          rw [optionsFrom_cons wellFormed] at member
          rcases List.mem_cons.mp member with rfl | behind
          · exact absurd isBad refused
          · exact ⟨j, behind, isBad⟩
        by_cases isInfo : IsPrefixInfo mem i
        · have accepted : Acceptable mem i := by
            by_contra not_
            exact refused ⟨isInfo, not_⟩
          exact ih (at_.accept accepted.2.1) later
            ((ends_again (at_.turn_accepts order wellFormed accepted)).mp ends)
        · exact ih at_.advance later
            ((ends_again (at_.turn_other order wellFormed isInfo)).mp ends)

end Walk

/-! ## Received advertisements -/

section Received
variable (order : ByteOrder) (msg : List UInt8)

def options : List Nat := optionsFrom (fun i => msg.getD i 0) msg.length sizeofIcmp6Hdr

def acceptableUpdates : List (Nat × NdOptPrefixInfo) :=
  updatesFrom (fun i => msg.getD i 0) msg.length sizeofIcmp6Hdr

def Parsed : Prop :=
  ∃ last, Ends (turn order) (Walk.start msg) (.ok last) ∧ last.updates = acceptableUpdates msg

def AllAcceptable : Prop :=
  ∀ i ∈ options msg, IsPrefixInfo (fun i => msg.getD i 0) i → Acceptable (fun i => msg.getD i 0) i

instance : Decidable (AllAcceptable msg) :=
  inferInstanceAs (Decidable (∀ i ∈ options msg, _ → _))

variable {order msg}

theorem at_start : At (fun i => msg.getD i 0) msg.length sizeofIcmp6Hdr (Walk.start msg) where
  opt := rfl
  len := rfl
  level := rfl
  same := fun _ _ => rfl

end Received

/-- Whatever is sent, no byte outside the message is read or written. -/
theorem mpa_reads_inside (order : ByteOrder) (msg : List UInt8) (fault : Fault) :
    ¬Ends (turn order) (Walk.start msg) (.error fault) := by
  intro ends
  obtain ⟨last, isLast, -⟩ := ends_inside at_start.level ends
  cases isLast

theorem mpa_options_iff (order : ByteOrder) (msg : List UInt8) :
    Parsed order msg ↔ AllAcceptable msg := by
  constructor
  · intro parsed
    obtain ⟨last, ends, updates⟩ := parsed
    intro i member isInfo
    by_contra refused
    obtain ⟨last, j, info, isLast, bad, called⟩ :=
      walk_refuses order sizeofIcmp6Hdr at_start ⟨i, member, isInfo, refused⟩ ends
    cases isLast
    rw [updates, acceptableUpdates, updatesFrom] at called
    obtain ⟨k, accepted, same⟩ := List.mem_map.mp called
    cases same
    exact bad (by simpa using List.of_mem_filter accepted)
  · intro acceptable
    obtain ⟨last, ends, updates⟩ := walk_accepts order sizeofIcmp6Hdr at_start acceptable
    exact ⟨last, ends, updates⟩

def shortOption : List UInt8 := [147, 0, 0, 0, 0, 7, 0, 0, 3, 1, 64, 0xc0, 0, 0, 0, 0]

def reversedOption : List UInt8 :=
  [147, 0, 0, 0, 0, 7, 0, 0, 3, 4, 64, 0xc0, 0, 0, 1, 0, 0, 1, 0, 0, 0, 0, 0, 0] ++
    [0x20, 1, 0xd, 0xb8] ++ List.replicate 12 0

/-- The first message is never left; the lifetimes of the second are passed on in
the byte order that they were sent in. -/
theorem mpa_options_fail :
    ¬Parsed .little shortOption ∧
      (∀ outcome, ¬Ends (turn .little) (Walk.start shortOption) outcome) ∧
      acceptableUpdates reversedOption = [] ∧
      ∃ last, Ends (turn .little) (Walk.start reversedOption) (.ok last) ∧
        last.updates.map (fun call => (call.1, call.2.validTime, call.2.preferredTime)) =
          [(8, 65536, 256)] := by
  have stays : turn .little (Walk.start shortOption) = .ok (.again (Walk.start shortOption)) := rfl
  have never : ∀ outcome, ¬Ends (turn .little) (Walk.start shortOption) outcome := by
    refine @Loops.never_ends _ _ _ (turn .little) (fun s => s = Walk.start shortOption) ?_ _ rfl
    intro s same
    subst same
    exact ⟨_, stays, rfl⟩
  refine ⟨fun parsed => ?_, never, by decide, ?_⟩
  · obtain ⟨last, ends, -⟩ := parsed
    exact never _ ends
  · exact ⟨_, ⟨4, rfl⟩, by decide⟩

end OaiPmip.Mpd
