import OaiPmip.RetroutOk

/-!
# Return routability between the nodes

The mobile node, the correspondent node and the tests in between, which may be
lost, repeated and delivered in any order.  Others may send what they like, but
they are not on the path: they do not know the cookies.
-/

set_option autoImplicit false

namespace OaiPmip.Retrout

open OaiPmip.Runs OaiPmip.Wire

structure World where
  mn : Mn
  cn : Cn.KeyNode
  tests : List Test
  clock : Timespec

def World.init : World := ⟨Mn.init, Cn.KeyNode.init, [], Cn.KeyNode.init.node.clock⟩

inductive Event where
  | mobile (env : Env) (input : MnInput)
  | testInit (now : Timespec) (type : RrType) (addr : In6Addr) (cookie : Octets 8)
      (remoteCoa : Option In6Addr)
  | correspondent (input : Cn.CnInput)

def Event.now : Event → Timespec
  | .mobile env _ => env.now
  | .testInit now _ _ _ _ => now
  | .correspondent input => input.now

inductive Stop where
  | mobile (fault : Fault)
  | correspondent (crash : OaiPmip.Crash)

section Step
variable (h : Host) (c : Cn.Crypto) (conf : Cn.CnConf) (authentic : Cn.Authentic)

/-- What `cn_recv_hoti` and `cn_recv_coti` share: the answer, with the token of the
address and the cookie of the init. -/
def cnRecvTi (type : RrType) (w : World) (now : Timespec) (addr : In6Addr) (cookie : Octets 8)
    (remoteCoa : Option In6Addr) : Except Stop World :=
  if remoteCoa.isSome then .ok { w with clock := now }
  else
    match c.rrCnKeygenToken w.cn.node.cn now addr type.bit,
        w.cn.step c conf authentic (.token now addr type.bit) with
    | .ok (_, index, keygen), .ok cn =>
        .ok { w with cn, clock := now, tests := ⟨type, addr, cookie, index, keygen⟩ :: w.tests }
    | .error crash, _ => .error (.correspondent crash)
    | _, .error crash => .error (.correspondent crash)

def cnRecvHoti := cnRecvTi c conf authentic .hotEntry

def cnRecvCoti := cnRecvTi c conf authentic .cotEntry

def World.step (w : World) : Event → Except Stop World
  | .mobile env input =>
      match w.mn.step h env input with
      | .error fault => .error (.mobile fault)
      | .ok mn => .ok { w with mn, clock := env.now }
  | .testInit now type addr cookie remoteCoa =>
      match type with
      | .hotEntry => cnRecvHoti c conf authentic w now addr cookie remoteCoa
      | .cotEntry => cnRecvCoti c conf authentic w now addr cookie remoteCoa
  | .correspondent input =>
      match w.cn.step c conf authentic (.other input) with
      | .error crash => .error (.correspondent crash)
      | .ok cn => .ok { w with cn, clock := input.now }

/-- A test that arrives was sent by the correspondent node, or by somebody who does
not know the cookies. -/
def World.OffPath (w : World) (event : Event) : Prop :=
  0 < event.now.tvSec ∧
    match event with
    | .mobile _ (.recvTest t _) => t ∈ w.tests ∨ ∀ n, h.cookies n ≠ t.cookie
    | _ => True

/-- Besides, the clock is not set back, and an init that arrives was sent by the
mobile node, or by somebody who does not know the cookies. -/
def World.Timely (w : World) (event : Event) : Prop :=
  w.OffPath h event ∧ tsbefore w.clock event.now = false ∧ event.now.tvNsec < timeSecNsec ∧
    match event with
    | .testInit _ _ _ cookie _ =>
        (∃ init ∈ w.mn.inits, init.cookie = cookie) ∨ ∀ n, h.cookies n ≠ cookie
    | _ => True

end Step

/-- The token is that of an issued one; `Fresh` says how it stands to the time of the
init that it answers. -/
def issuedToken (Fresh : Cn.Issued → Timespec → Prop) (issued : List Cn.Issued) : Tokens :=
  fun addr bit index token sent => ∃ iss ∈ issued, iss.addr = addr ∧ iss.bit = bit ∧
    iss.index = index ∧ iss.token = token ∧ Fresh iss sent

def Answers (Fresh : Cn.Issued → Timespec → Prop) (issued : List Cn.Issued)
    (inits : List TestInit) (t : Test) : Prop :=
  ∃ iss ∈ issued, iss.addr = t.addr ∧ iss.bit = t.type.bit ∧ iss.index = t.index ∧
    iss.token = t.keygen ∧ ∀ init ∈ inits, init.cookie = t.cookie → Fresh iss init.sentAt

structure WorldOk (h : Host) (Fresh : Cn.Issued → Timespec → Prop) (w : World) : Prop where
  mn : Ok h (issuedToken Fresh w.cn.issued) w.mn.inits w.clock none none w.mn.bul w.mn
  tests : ∀ t ∈ w.tests, Answers Fresh w.cn.issued w.mn.inits t

section Tokens
variable {h : Host} {c : Cn.Crypto} {conf : Cn.CnConf} {authentic : Cn.Authentic}
  {Fresh : Cn.Issued → Timespec → Prop} {w w' : World} {event : Event}

theorem Ok.again {Tok : Tokens} {past : List TestInit} {now now' : Timespec}
    {moved busy : Option In6Addr} {bul : In6Addr → Option Bulentry} {s : Mn}
    (ok : Ok h Tok past now moved busy bul s) : Ok h Tok s.inits now' moved busy bul s :=
  ⟨ok.tests, ok.bules,
    ⟨ok.log.creates, ok.log.draws, [], rfl, fun _ member => by cases member⟩, ok.updates⟩

theorem issuedToken_mono {issued issued' : List Cn.Issued} (more : ∀ iss ∈ issued, iss ∈ issued')
    (addr : In6Addr) (bit : UInt8) (index : UInt16) (token : List UInt8) (sent : Timespec)
    (holds : issuedToken Fresh issued addr bit index token sent) :
    issuedToken Fresh issued' addr bit index token sent := by
  obtain ⟨iss, member, rest⟩ := holds
  exact ⟨iss, more iss member, rest⟩

theorem Answers.mono {issued issued' : List Cn.Issued} {inits : List TestInit} {t : Test}
    (answers : Answers Fresh issued inits t) (more : ∀ iss ∈ issued, iss ∈ issued') :
    Answers Fresh issued' inits t := by
  obtain ⟨iss, member, rest⟩ := answers
  exact ⟨iss, more iss member, rest⟩

theorem Ok.cookie {Tok : Tokens} {past : List TestInit} {now : Timespec}
    {moved busy : Option In6Addr} {bul : In6Addr → Option Bulentry} {s : Mn}
    (ok : Ok h Tok past now moved busy bul s) {init : TestInit} (sent : init ∈ s.inits) :
    ∃ n < s.drawn, init.cookie = h.cookies n := by
  have drawn : init.cookie ∈ s.inits.map TestInit.cookie := List.mem_map_of_mem sent
  rw [ok.log.draws, List.mem_map] at drawn
  obtain ⟨n, isDrawn, isCookie⟩ := drawn
  rw [List.mem_reverse, List.mem_range] at isDrawn
  exact ⟨n, isDrawn, isCookie.symm⟩

theorem WorldOk.genuine (ok : WorldOk h Fresh w) {t : Test}
    (offPath : t ∈ w.tests ∨ ∀ n, h.cookies n ≠ t.cookie) :
    Genuine (issuedToken Fresh w.cn.issued) w.mn t := by
  intro type rre waits isType
  obtain ⟨here, isCookie, -⟩ := waiting_eq.mp waits
  have sent := (ok.mn.get here).init
  rcases offPath with isTest | unknown
  · obtain ⟨iss, member, addr, bit, index, token, fresh⟩ := ok.tests t isTest
    exact ⟨iss, member, addr, isType ▸ bit, index, token, fresh _ sent isCookie⟩
  · obtain ⟨n, -, drawn⟩ := ok.mn.cookie sent
    exact absurd (drawn.symm.trans isCookie) (unknown n)

theorem WorldOk.mobile (ok : WorldOk h Fresh w) {env : Env} {input : MnInput} {mn : Mn}
    (offPath : w.OffPath h (.mobile env input)) (taken : w.mn.step h env input = .ok mn)
    (others : ∀ t ∈ w.tests, ∀ init ∈ mn.inits, init ∉ w.mn.inits → init.cookie ≠ t.cookie ∨
      ∀ iss, Fresh iss init.sentAt) :
    WorldOk h Fresh { w with mn, clock := env.now } := by
  have start : Ok h (issuedToken Fresh w.cn.issued) w.mn.inits env.now none none w.mn.bul w.mn :=
    ok.mn.again
  have genuine : input.Genuine (issuedToken Fresh w.cn.issued) w.mn := by
    cases input with
    | recvTest t remoteCoa => exact ok.genuine offPath.2
    | _ => trivial
  have after := Mn.ok_step start genuine taken
  refine ⟨after.again, ?_⟩
  intro t isTest
  obtain ⟨iss, member, addr, bit, index, token, fresh⟩ := ok.tests t isTest
  refine ⟨iss, member, addr, bit, index, token, ?_⟩
  intro init sent isCookie
  by_cases earlier : init ∈ w.mn.inits
  · exact fresh init earlier isCookie
  · rcases others t isTest init sent earlier with other | always
    · exact absurd isCookie other
    · exact always iss

/-- What `cn_recv_hoti` and `cn_recv_coti` do: a token more, and a test with it. -/
theorem cnRecvTi_ok {type : RrType} {now : Timespec} {addr : In6Addr} {cookie : Octets 8}
    {remoteCoa : Option In6Addr}
    (taken : cnRecvTi c conf authentic type w now addr cookie remoteCoa = .ok w') :
    w' = { w with clock := now } ∨
      w.cn.step c conf authentic (.token now addr type.bit) = .ok w'.cn ∧
        ∃ iss, w'.cn.issued = iss :: w.cn.issued ∧ iss.addr = addr ∧ iss.bit = type.bit ∧
          (∃ n, (Cn.getValidNonce w.cn.node.cn now).2 = some n ∧ iss.validUntil =
            ((Cn.getValidNonce w.cn.node.cn now).1.nonces (Cn.slot n.nonceIndex)).validUntil) ∧
          w' = { w with
            cn := w'.cn
            clock := now
            tests := ⟨type, addr, cookie, iss.index, iss.token⟩ :: w.tests } := by
  simp only [cnRecvTi] at taken
  split at taken
  · cases taken
    exact Or.inl rfl
  · right
    split at taken
    · rename_i s index keygen cn asked stepped
      cases taken
      refine ⟨stepped, ?_⟩
      simp only [Cn.KeyNode.step] at stepped
      rw [asked] at stepped
      cases stepped
      refine ⟨_, rfl, rfl, rfl, ?_, rfl⟩
      simp only [Cn.Crypto.rrCnKeygenToken] at asked
      split at asked
      · cases asked
      · rename_i s' n found
        cases asked
        rw [found]
        exact ⟨n, rfl, rfl⟩
    · cases taken
    · cases taken

theorem World.stepped (taken : w.step h c conf authentic event = .ok w') :
    w'.clock = event.now ∧ (w'.cn = w.cn ∨ ∃ input : Cn.KeyInput, input.now = event.now ∧
      w.cn.step c conf authentic input = .ok w'.cn) := by
  have tested : ∀ type now addr cookie remoteCoa,
      cnRecvTi c conf authentic type w now addr cookie remoteCoa = .ok w' →
      w'.clock = now ∧ (w'.cn = w.cn ∨ ∃ input : Cn.KeyInput, input.now = now ∧
        w.cn.step c conf authentic input = .ok w'.cn) := by
    intro type now addr cookie remoteCoa received
    rcases cnRecvTi_ok received with same | ⟨stepped, iss, -, -, -, -, isNext⟩
    · rw [same]
      exact ⟨rfl, Or.inl rfl⟩
    · refine ⟨?_, Or.inr ⟨_, rfl, stepped⟩⟩
      rw [isNext]
  cases event with
  | mobile env input =>
      simp only [World.step] at taken
      split at taken
      · cases taken
      · cases taken
        exact ⟨rfl, Or.inl rfl⟩
  | testInit now type addr cookie remoteCoa =>
      cases type with
      | hotEntry => exact tested .hotEntry now addr cookie remoteCoa taken
      | cotEntry => exact tested .cotEntry now addr cookie remoteCoa taken
  | correspondent input =>
      simp only [World.step] at taken
      split at taken
      · cases taken
      · rename_i cn stepped
        cases taken
        exact ⟨rfl, Or.inr ⟨.other input, rfl, stepped⟩⟩

theorem KeyNode.issued_mono {cn cn' : Cn.KeyNode} {input : Cn.KeyInput}
    (epoch : 0 < input.now.tvSec) (taken : cn.step c conf authentic input = .ok cn') :
    ∀ iss ∈ cn.issued, iss ∈ cn'.issued := by
  obtain ⟨-, -, same | ⟨addr, bit, i, -, -, more⟩⟩ := Cn.KeyNode.stepped epoch taken
  · rw [same]
    exact fun _ member => member
  · rw [more]
    exact fun _ member => List.mem_cons_of_mem _ member

theorem WorldOk.step (ok : WorldOk h Fresh w) (offPath : w.OffPath h event)
    (sends : ∀ t ∈ w.tests, ∀ init ∈ w'.mn.inits, init ∉ w.mn.inits →
      init.cookie ≠ t.cookie ∨ ∀ iss, Fresh iss init.sentAt)
    (answers : ∀ cookie type addr remoteCoa,
      event = .testInit event.now type addr cookie remoteCoa →
      ∀ iss : Cn.Issued, (∃ n, (Cn.getValidNonce w.cn.node.cn event.now).2 = some n ∧
        iss.validUntil = ((Cn.getValidNonce w.cn.node.cn event.now).1.nonces
          (Cn.slot n.nonceIndex)).validUntil) →
      ∀ init ∈ w.mn.inits, init.cookie = cookie → Fresh iss init.sentAt)
    (taken : w.step h c conf authentic event = .ok w') : WorldOk h Fresh w' := by
  have tested : ∀ type now addr cookie remoteCoa,
      event = .testInit now type addr cookie remoteCoa →
      cnRecvTi c conf authentic type w now addr cookie remoteCoa = .ok w' → WorldOk h Fresh w' := by
    rintro type now addr cookie remoteCoa rfl received
    rcases cnRecvTi_ok received with same | ⟨stepped, iss, issued, isAddr, bit, valid, isNext⟩
    · rw [same]
      exact ⟨ok.mn.again, ok.tests⟩
    · have more : ∀ old ∈ w.cn.issued, old ∈ w'.cn.issued := by
        rw [issued]
        exact fun _ member => List.mem_cons_of_mem _ member
      rw [isNext]
      refine ⟨(ok.mn.mono (issuedToken_mono more)).again, ?_⟩
      intro t member
      rcases List.mem_cons.mp member with rfl | earlier
      · refine ⟨iss, ?_, isAddr, bit, rfl, rfl, ?_⟩
        · rw [issued]
          exact List.mem_cons_self
        · exact answers cookie type addr remoteCoa rfl iss valid
      · exact (ok.tests t earlier).mono more
  cases event with
  | mobile env input =>
      simp only [World.step] at taken
      split at taken
      · cases taken
      · rename_i mn stepped
        cases taken
        exact ok.mobile offPath stepped sends
  | testInit now type addr cookie remoteCoa =>
      cases type with
      | hotEntry => exact tested .hotEntry now addr cookie remoteCoa rfl taken
      | cotEntry => exact tested .cotEntry now addr cookie remoteCoa rfl taken
  | correspondent input =>
      simp only [World.step] at taken
      split at taken
      · cases taken
      · rename_i cn stepped
        cases taken
        have epoch : 0 < (Cn.KeyInput.other input).now.tvSec := offPath.1
        have more := KeyNode.issued_mono epoch stepped
        exact ⟨(ok.mn.mono (issuedToken_mono more)).again,
          fun t member => (ok.tests t member).mono more⟩

end Tokens

/-! ## Every update is made of issued tokens -/

def AnyTime (_ : Cn.Issued) (_ : Timespec) : Prop := True

structure Safe (h : Host) (c : Cn.Crypto) (w : World) : Prop where
  ok : WorldOk h AnyTime w
  keys : w.cn.node.cn.regenerations < 65000 → Cn.KeysOk c w.cn.node.cn w.cn.issued

section Run
variable {h : Host} {c : Cn.Crypto} {conf : Cn.CnConf} {authentic : Cn.Authentic} {w : World}

theorem Safe.init (creates : h.Supplies .mhCreate) : Safe h c World.init where
  ok := ⟨Ok.init creates, fun _ member => by cases member⟩
  keys := fun _ => ⟨Cn.indicesOk_init, by decide, fun _ member => by cases member⟩

theorem Safe.step (w : World) (event : Event) (w' : World) (safe : Safe h c w)
    (offPath : w.OffPath h event) (taken : w.step h c conf authentic event = .ok w') :
    Safe h c w' := by
  refine ⟨?_, ?_⟩
  · exact safe.ok.step offPath (fun _ _ _ _ _ => Or.inr fun _ => trivial)
      (fun _ _ _ _ _ _ _ _ _ _ => trivial) taken
  · intro few
    obtain ⟨-, same | ⟨input, isNow, stepped⟩⟩ := World.stepped taken
    · rw [same] at few ⊢
      exact safe.keys few
    · exact Cn.KeyNode.keysOk_step safe.keys (isNow ▸ offPath.1) stepped few

theorem Safe.run {events : List Event} (creates : h.Supplies .mhCreate)
    (offPath : Meets (World.step h c conf authentic) (World.OffPath h) World.init events)
    (finished : run (World.step h c conf authentic) World.init events = .ok w) : Safe h c w :=
  run_invariant Safe.step (Safe.init creates) offPath finished

end Run

/-- `rr_mn_calc_Kbm` of keygen.c, with the hashes of crypto.c. -/
def mnKbm (order : ByteOrder) (old : Octets 64) (keygenHoa : List UInt8)
    (keygenCoa : Option (List UInt8)) : Octets 20 :=
  ⟨Crypto.rrMnCalcKbm order old keygenHoa keygenCoa, by
    rw [Crypto.rrMnCalcKbm_eq order old (Octets.zero 20) fun _ => []]
    cases keygenCoa with
    | none => exact Crypto.sha1_size _
    | some careOf => exact Crypto.sha1_size _⟩

section Updates
variable {h : Host} {order : ByteOrder} {old : Octets 64} {issued : List Cn.Issued} {u : Update}

theorem BuleOk.notHome {hoa : In6Addr} {bule : Bulentry} (good : BuleOk h hoa bule) :
    bule.flags.toUInt8 &&& 0x40 = 0 := by
  rcases good.flags with none | ack
  · rw [none]
    rfl
  · rw [ack]
    rfl

end Updates

def sampleCookie (n : Nat) : Octets 8 := ⟨List.replicate 8 (UInt8.ofNat n), List.length_replicate⟩

def sampleHost : Host where
  cookies := sampleCookie
  alloc := fun _ _ => true
  rrMnCalcKbm := mnKbm .little (Octets.zero 64)
  conf := ⟨ip6MhBuAck, Or.inr rfl, false, 0, ⟨1, 0⟩⟩
  peerAddr := Mh.sampleAddr 3

def sampleEnv (now : Int) : Env := ⟨⟨now, 0⟩, fun _ => false, fun _ => ⟨420, 0⟩⟩

def sampleCrypto : Cn.Crypto := Crypto.hashes (Octets.zero 20) Mh.sampleBytes

def sampleConf : Cn.CnConf := ⟨true, [], fun _ => false⟩

def sampleTest (type : RrType) (last : UInt8) (cookie : Nat) : Test :=
  ⟨type, Mh.sampleAddr last, sampleCookie cookie, 1,
    sampleCrypto.buildKgenToken (Mh.sampleAddr last) 0 type.bit⟩

def sampleEvents : List Event :=
  [.mobile (sampleEnv 100) (.startRo (Mh.sampleAddr 1) (Mh.sampleAddr 2) 1 ⟨7, true⟩),
    .testInit ⟨101, 0⟩ .hotEntry (Mh.sampleAddr 1) (sampleCookie 0) none,
    .testInit ⟨102, 0⟩ .cotEntry (Mh.sampleAddr 2) (sampleCookie 1) none,
    .mobile (sampleEnv 103) (.recvTest (sampleTest .hotEntry 1 0) none),
    .mobile (sampleEnv 104) (.recvTest (sampleTest .cotEntry 2 1) none)]

def sampleStep : World → Event → Except Stop World := World.step sampleHost sampleCrypto sampleConf
  (Mh.authentic (Octets.zero 20) Mh.sampleBytes sampleConf.dupBeyond)

def Outlives (iss : Cn.Issued) (sent : Timespec) : Prop :=
  tsbefore (tsadd maxTokenLifetime sent) iss.validUntil = false

theorem tsbefore_false {a b : Timespec} :
    tsbefore a b = false ↔ a.tvSec < b.tvSec ∨ a.tvSec = b.tvSec ∧ a.tvNsec ≤ b.tvNsec := by
  by_cases same : a.tvSec = b.tvSec
  · simp only [tsbefore, if_pos same, decide_eq_false_iff_not]
    omega
  · simp only [tsbefore, if_neg same, decide_eq_false_iff_not]
    omega

theorem tsbefore_true {a b : Timespec} :
    tsbefore a b = true ↔ b.tvSec < a.tvSec ∨ a.tvSec = b.tvSec ∧ b.tvNsec < a.tvNsec := by
  by_cases same : a.tvSec = b.tvSec
  · simp only [tsbefore, if_pos same, decide_eq_true_iff]
    omega
  · simp only [tsbefore, if_neg same, decide_eq_true_iff]
    omega

theorem tsafter_false {a b : Timespec} :
    tsafter a b = false ↔ b.tvSec < a.tvSec ∨ a.tvSec = b.tvSec ∧ b.tvNsec ≤ a.tvNsec := by
  by_cases same : a.tvSec = b.tvSec
  · simp only [tsafter, if_pos same, decide_eq_false_iff_not]
    omega
  · simp only [tsafter, if_neg same, decide_eq_false_iff_not]
    omega

theorem tsbefore_self (time : Timespec) : tsbefore time time = false :=
  tsbefore_false.mpr (Or.inr ⟨rfl, Int.le_refl _⟩)

theorem getValidNonce_lifetime {s : Cn.State} {now : Timespec} {n : Cn.NonceHolder}
    (found : (Cn.getValidNonce s now).2 = some n) :
    Cn.maxTokenLifetime ≤ (Cn.tssub n.validUntil now).tvSec := by
  rw [Cn.getValidNonce] at found
  generalize (if s.minNce ≤ s.maxNce then
    (List.range 16).map fun i => s.minNce + UInt16.ofNat i else []) = indices at found
  induction indices generalizing s with
  | nil => cases found
  | cons index rest ih =>
      simp only [Cn.getValidNonceFrom] at found
      split at found
      · cases found
      · rename_i holder _
        generalize (if tsisset holder.validUntil = true then holder else
          { holder with validUntil := tsadd now Cn.maxNonceLifetime }) = next at found
        split at found
        · rename_i long
          cases found
          exact long
        · exact ih found

theorem outlives_of_lifetime {until_ now sent : Timespec}
    (long : Cn.maxTokenLifetime ≤ (Cn.tssub until_ now).tvSec) (earlier : tsbefore sent now = false)
    (low : sent.tvNsec < timeSecNsec) : tsbefore (tsadd maxTokenLifetime sent) until_ = false := by
  have noCarry : ¬maxTokenLifetime.tvNsec + sent.tvNsec ≥ timeSecNsec := by
    simp only [maxTokenLifetime]
    omega
  rw [tsbefore_false] at earlier ⊢
  simp only [tsadd, if_neg noCarry]
  simp only [maxTokenLifetime]
  by_cases borrow : until_.tvNsec - now.tvNsec < 0
  · simp only [Cn.tssub, if_pos borrow, Cn.maxTokenLifetime] at long
    omega
  · simp only [Cn.tssub, if_neg borrow, Cn.maxTokenLifetime] at long
    omega

def Distinct (h : Host) (drawn : Nat) : Prop :=
  ∀ m n, m < n → n < drawn → h.cookies m ≠ h.cookies n

/-- What a run keeps in which the clock is not set back either. -/
structure Timed (h : Host) (c : Cn.Crypto) (w : World) : Prop where
  ok : WorldOk h Outlives w
  known : ∀ t ∈ w.tests,
    (∃ init ∈ w.mn.inits, init.cookie = t.cookie) ∨ ∀ n, h.cookies n ≠ t.cookie
  sent : ∀ init ∈ w.mn.inits,
    tsbefore init.sentAt w.clock = false ∧ init.sentAt.tvNsec < timeSecNsec
  cnClock : tsbefore w.cn.node.clock w.clock = false
  keys : w.cn.node.cn.regenerations < 65000 →
    Cn.KeysOk c w.cn.node.cn w.cn.issued ∧ w.cn.Lapses

section Timed
variable {h : Host} {c : Cn.Crypto} {conf : Cn.CnConf} {authentic : Cn.Authentic} {w : World}

theorem Timed.init (creates : h.Supplies .mhCreate) : Timed h c World.init where
  ok := ⟨Ok.init creates, fun _ member => by cases member⟩
  known := fun _ member => by cases member
  sent := fun _ member => by cases member
  cnClock := rfl
  keys := fun _ => ⟨⟨Cn.indicesOk_init, by decide, fun _ member => by cases member⟩,
    fun _ member => by cases member⟩

theorem Log.fresh {past inits : List TestInit} {now : Timespec} {drawn : Nat}
    (log : Log h past now inits drawn) (distinct : Distinct h drawn) :
    ∀ init ∈ inits, init ∉ past → ∀ other ∈ past, init.cookie ≠ other.cookie := by
  obtain ⟨new, isLog, -⟩ := log.grows
  have nodup : (inits.map TestInit.cookie).Nodup := by
    rw [log.draws]
    refine List.Nodup.map_on ?_ (List.nodup_reverse.mpr List.nodup_range)
    intro m isDrawn n isDrawn' same
    rw [List.mem_reverse, List.mem_range] at isDrawn isDrawn'
    by_contra other
    rcases Nat.lt_or_gt_of_ne other with less | more
    · exact distinct m n less isDrawn' same
    · exact distinct n m more isDrawn same.symm
  rw [isLog, List.map_append, List.nodup_append] at nodup
  intro init member isNew other isPast
  rw [isLog, List.mem_append] at member
  have isHere : init ∈ new := member.resolve_right isNew
  exact nodup.2.2 _ (List.mem_map_of_mem isHere) _ (List.mem_map_of_mem isPast)

theorem World.testsInits {event : Event} {w' : World}
    (taken : w.step h c conf authentic event = .ok w') :
    (∀ t ∈ w'.tests, t ∈ w.tests ∨ ∃ type addr remoteCoa,
      event = .testInit event.now type addr t.cookie remoteCoa) ∧
      (w'.mn = w.mn ∨ ∃ env input, event = .mobile env input ∧
        w.mn.step h env input = .ok w'.mn) := by
  have tested : ∀ type now addr cookie remoteCoa,
      cnRecvTi c conf authentic type w now addr cookie remoteCoa = .ok w' →
      (∀ t ∈ w'.tests, t ∈ w.tests ∨ t.cookie = cookie) ∧ w'.mn = w.mn := by
    intro type now addr cookie remoteCoa received
    rcases cnRecvTi_ok received with same | ⟨-, iss, -, -, -, -, isNext⟩
    · rw [same]
      exact ⟨fun _ member => Or.inl member, rfl⟩
    · rw [isNext]
      refine ⟨?_, rfl⟩
      intro t member
      rcases List.mem_cons.mp member with rfl | earlier
      · exact Or.inr rfl
      · exact Or.inl earlier
  cases event with
  | mobile env input =>
      simp only [World.step] at taken
      split at taken
      · cases taken
      · rename_i mn stepped
        cases taken
        exact ⟨fun _ member => Or.inl member, Or.inr ⟨env, input, rfl, stepped⟩⟩
  | testInit now type addr cookie remoteCoa =>
      have either : (∀ t ∈ w'.tests, t ∈ w.tests ∨ t.cookie = cookie) ∧ w'.mn = w.mn := by
        cases type with
        | hotEntry => exact tested .hotEntry now addr cookie remoteCoa taken
        | cotEntry => exact tested .cotEntry now addr cookie remoteCoa taken
      refine ⟨?_, Or.inl either.2⟩
      intro t member
      rcases either.1 t member with earlier | isCookie
      · exact Or.inl earlier
      · exact Or.inr ⟨type, addr, remoteCoa, isCookie ▸ rfl⟩
  | correspondent input =>
      simp only [World.step] at taken
      split at taken
      · cases taken
      · cases taken
        exact ⟨fun _ member => Or.inl member, Or.inl rfl⟩

theorem World.logged {event : Event} {w' : World} (safe : Safe h c w)
    (offPath : w.OffPath h event) (taken : w.step h c conf authentic event = .ok w') :
    Log h w.mn.inits event.now w'.mn.inits w'.mn.drawn ∧ w.mn.drawn ≤ w'.mn.drawn := by
  have log : Log h w.mn.inits event.now w'.mn.inits w'.mn.drawn := by
    obtain ⟨-, same | ⟨env, input, rfl, stepped⟩⟩ := World.testsInits taken
    · rw [same]
      exact safe.ok.mn.again.log
    · have genuine : input.Genuine (issuedToken AnyTime w.cn.issued) w.mn := by
        cases input with
        | recvTest t remoteCoa => exact safe.ok.genuine offPath.2
        | _ => trivial
      exact (Mn.ok_step safe.ok.mn.again genuine stepped).log
  have count : ∀ {past inits : List TestInit} {now : Timespec} {drawn : Nat},
      Log h past now inits drawn → inits.length = drawn := by
    intro past inits now drawn log
    have lengths := congrArg List.length log.draws
    simpa using lengths
  refine ⟨log, ?_⟩
  obtain ⟨new, isLog, -⟩ := log.grows
  rw [← count log, ← count safe.ok.mn.log, isLog, List.length_append]
  exact Nat.le_add_left _ _

theorem Timed.step {event : Event} {w' : World} (safe : Safe h c w) (timed : Timed h c w)
    (timely : w.Timely h event) (distinct : Distinct h w'.mn.drawn)
    (taken : w.step h c conf authentic event = .ok w') : Timed h c w' := by
  obtain ⟨offPath, forward, low, cookie⟩ := timely
  have epoch := offPath.1
  obtain ⟨clock, onCn⟩ := World.stepped taken
  obtain ⟨tests, onMn⟩ := World.testsInits taken
  have later : ∀ {time : Timespec}, tsbefore time w.clock = false →
      tsbefore time event.now = false := fun before => Cn.tsbefore_of_later before forward
  obtain ⟨log, -⟩ := World.logged safe offPath taken
  obtain ⟨new, isLog, sentNow⟩ := log.grows
  constructor
  · refine timed.ok.step offPath ?_ ?_ taken
    · intro t isTest init sent isNew
      left
      rcases timed.known t isTest with ⟨other, isOther, isCookie⟩ | unknown
      · rw [← isCookie]
        exact log.fresh distinct init sent isNew other isOther
      · intro same
        have drawn : init.cookie ∈ w'.mn.inits.map TestInit.cookie := List.mem_map_of_mem sent
        rw [log.draws, List.mem_map] at drawn
        obtain ⟨n, -, isCookie⟩ := drawn
        exact unknown n (isCookie.trans same)
    · rintro _ _ _ _ - iss ⟨n, found, isUntil⟩ init sent -
      obtain ⟨-, placed⟩ := Cn.getValidNonceFrom_searched epoch w.cn.node.cn
        (if w.cn.node.cn.minNce ≤ w.cn.node.cn.maxNce then
          (List.range 16).map fun i => w.cn.node.cn.minNce + UInt16.ofNat i else [])
      have isHere : (Cn.getValidNonce w.cn.node.cn event.now).1.nonces (Cn.slot n.nonceIndex) = n :=
        (placed n found).1
      rw [isHere] at isUntil
      rw [Outlives, isUntil]
      exact outlives_of_lifetime (getValidNonce_lifetime found) (later (timed.sent init sent).1)
        (timed.sent init sent).2
  · intro t member
    rcases tests t member with earlier | ⟨type, addr, remoteCoa, isInit⟩
    · rcases timed.known t earlier with ⟨init, isInit, same⟩ | unknown
      · refine Or.inl ⟨init, ?_, same⟩
        rw [isLog]
        exact List.mem_append_right _ isInit
      · exact Or.inr unknown
    · rw [isInit] at cookie
      rcases cookie with ⟨init, isInit, same⟩ | unknown
      · refine Or.inl ⟨init, ?_, same⟩
        rw [isLog]
        exact List.mem_append_right _ isInit
      · exact Or.inr unknown
  · intro init member
    rw [clock]
    rw [isLog] at member
    rcases List.mem_append.mp member with isNew | earlier
    · rw [sentNow init isNew]
      exact ⟨tsbefore_self _, low⟩
    · exact ⟨later (timed.sent init earlier).1, (timed.sent init earlier).2⟩
  · rw [clock]
    rcases onCn with same | ⟨input, isNow, stepped⟩
    · rw [same]
      exact later timed.cnClock
    · obtain ⟨-, cnClock, -⟩ := Cn.KeyNode.stepped (isNow ▸ epoch) stepped
      rw [cnClock, isNow]
      exact tsbefore_self _
  · intro few
    rcases onCn with same | ⟨input, isNow, stepped⟩
    · rw [same] at few ⊢
      exact timed.keys few
    · have inputEpoch : 0 < input.now.tvSec := isNow ▸ epoch
      obtain ⟨changed, -, -⟩ := Cn.KeyNode.stepped inputEpoch stepped
      obtain ⟨keys, lapses⟩ := timed.keys (changed.few few)
      refine ⟨Cn.KeyNode.keysOk_step (fun _ => keys) inputEpoch stepped few, ?_⟩
      refine Cn.KeyNode.lapses_step keys lapses inputEpoch ?_ stepped
      rw [Cn.KeyNode.Forward, isNow]
      exact later timed.cnClock

theorem Timed.valid (timed : Timed h c w) (few : w.cn.node.cn.regenerations < 65000)
    {now : Timespec} (forward : tsbefore w.clock now = false) {moved : Option In6Addr}
    {bul : In6Addr → Option Bulentry} {inits : List TestInit} {addr : In6Addr} {rre : Rrlentry}
    (good : RreOk (issuedToken Outlives w.cn.issued) moved none bul inits addr rre)
    (valid : mnRrTokenValid rre now = true) :
    ∃ iss ∈ w.cn.issued, iss.addr = addr ∧ iss.bit = rre.type.bit ∧ iss.index = rre.index ∧
      iss.token = rre.kgenToken ∧ iss.valid w.cn.node.cn now = true := by
  obtain ⟨keys, lapses⟩ := timed.keys few
  simp only [mnRrTokenValid, Bool.and_eq_true, Bool.not_eq_true'] at valid
  obtain ⟨ended, notExpired⟩ := valid
  obtain ⟨iss, member, isAddr, bit, index, token, outlives⟩ := good.token ended
  have notBusy : none ≠ some addr := (Option.some_ne_none addr).symm
  have expires := (good.settled notBusy ended).2
  rw [Outlives, ← expires] at outlives
  -- from now to the end of the entry, and from there to the end of the nonce
  have notYet : tsbefore iss.validUntil now = true := by
    rw [tsbefore_false] at outlives
    rw [tsbefore_true] at notExpired ⊢
    omega
  refine ⟨iss, member, isAddr, bit, index, token, ?_⟩
  simp only [Cn.Issued.valid, Bool.and_eq_true, Bool.not_eq_true']
  constructor
  · cases gone : iss.regenerated w.cn.node.cn with
    | false => rfl
    | true =>
        have lapsed := lapses iss member gone
        have passed := Cn.tsbefore_of_later (Cn.tsbefore_of_later lapsed timed.cnClock) forward
        rw [notYet] at passed
        cases passed
  · rw [tsbefore_true] at notYet
    rw [tsafter_false]
    omega

theorem Timed.run {events : List Event} (creates : h.Supplies .mhCreate)
    (timely : Meets (World.step h c conf authentic) (World.Timely h) World.init events)
    (finished : Runs.run (World.step h c conf authentic) World.init events = .ok w)
    (distinct : Distinct h w.mn.drawn) : Timed h c w := by
  let held (w : World) : Prop := Safe h c w ∧ (Distinct h w.mn.drawn → Timed h c w)
  have keeps : ∀ w event w', held w → World.Timely h w event →
      w.step h c conf authentic event = .ok w' → held w' := by
    intro w event w' ⟨safe, timed⟩ timely taken
    refine ⟨Safe.step w event w' safe timely.1 taken, fun distinct => ?_⟩
    obtain ⟨-, more⟩ := World.logged safe timely.1 taken
    have before : Distinct h w.mn.drawn :=
      fun m n less isDrawn => distinct m n less (Nat.lt_of_lt_of_le isDrawn more)
    exact Timed.step safe (timed before) timely distinct taken
  exact (run_invariant keeps ⟨Safe.init creates, fun _ => Timed.init creates⟩ timely finished).2 distinct

end Timed

/-- As long as the mobile node holds a token to be valid, the correspondent node
finds its nonce by the index, and would make the same token again. -/
theorem token_valid_at_both (h : Host) (c : Cn.Crypto) (conf : Cn.CnConf)
    (authentic : Cn.Authentic) (creates : h.Supplies .mhCreate) (events : List Event)
    (timely : Meets (World.step h c conf authentic) (World.Timely h) World.init events)
    (w : World) (finished : run (World.step h c conf authentic) World.init events = .ok w)
    (few : w.cn.node.cn.regenerations < 65000) (distinct : Distinct h w.mn.drawn)
    (addr : In6Addr) (rre : Rrlentry) (entry : w.mn.rrl addr = some rre)
    (now : Timespec) (forward : tsbefore w.clock now = false)
    (valid : mnRrTokenValid rre now = true) :
    ∃ n, Cn.validateNonce w.cn.node.cn now rre.index = some n ∧
      rre.kgenToken = c.buildKgenToken addr n.nonce rre.type.bit := by
  have timed := Timed.run creates timely finished distinct
  obtain ⟨iss, member, isAddr, bit, index, token, isValid⟩ :=
    timed.valid few forward (timed.ok.mn.tests addr rre entry) valid
  have kept := (timed.keys few).1.kept iss member
  obtain ⟨n, found, nonce⟩ := (kept.validates now).1 isValid
  refine ⟨n, index ▸ found, ?_⟩
  rw [nonce, ← token, kept.token, isAddr, bit]

theorem sampleEvents_timely :
    Meets sampleStep (World.Timely sampleHost) World.init sampleEvents := by
  refine Meets.cons ⟨⟨by decide, trivial⟩, rfl, by decide, trivial⟩ rfl ?_
  refine Meets.cons ⟨⟨by decide, trivial⟩, rfl, by decide,
    Or.inl ⟨_, List.mem_cons_of_mem _ List.mem_cons_self, rfl⟩⟩ rfl ?_
  refine Meets.cons ⟨⟨by decide, trivial⟩, rfl, by decide,
    Or.inl ⟨_, List.mem_cons_self, rfl⟩⟩ rfl ?_
  refine Meets.cons ⟨⟨by decide, Or.inl (List.mem_cons_of_mem _ List.mem_cons_self)⟩, rfl,
    by decide, trivial⟩ rfl ?_
  exact Meets.cons ⟨⟨by decide, Or.inl List.mem_cons_self⟩, rfl, by decide, trivial⟩ rfl trivial

theorem sampleCookies_distinct : Distinct sampleHost 2 := by
  intro m n less isDrawn
  obtain ⟨rfl, rfl⟩ : m = 0 ∧ n = 1 := by omega
  decide

/-- The home token is valid for 210 seconds from its init on. -/
theorem home_token_valid_at_both : ∃ w rre n, run sampleStep World.init sampleEvents = .ok w ∧
    w.mn.rrl (Mh.sampleAddr 1) = some rre ∧ mnRrTokenValid rre ⟨309, 0⟩ = true ∧
    Cn.validateNonce w.cn.node.cn ⟨309, 0⟩ rre.index = some n ∧
    rre.kgenToken = sampleCrypto.buildKgenToken (Mh.sampleAddr 1) n.nonce 0 := by
  obtain ⟨w, rre, finished, here, valid, isHot, few, drawn, forward⟩ : ∃ w rre,
      run sampleStep World.init sampleEvents = .ok w ∧
      w.mn.rrl (Mh.sampleAddr 1) = some rre ∧ mnRrTokenValid rre ⟨309, 0⟩ = true ∧
      rre.type = .hotEntry ∧ w.cn.node.cn.regenerations < 65000 ∧ w.mn.drawn = 2 ∧
      tsbefore w.clock ⟨309, 0⟩ = false := ⟨_, _, rfl, rfl, rfl, rfl, by decide, rfl, rfl⟩
  obtain ⟨n, found, token⟩ := token_valid_at_both sampleHost sampleCrypto sampleConf _
    (fun _ => rfl) sampleEvents sampleEvents_timely w finished few (drawn ▸ sampleCookies_distinct) _ rre here ⟨309, 0⟩ forward
    valid
  rw [isHot] at token
  exact ⟨w, rre, n, finished, here, valid, found, token⟩

/-- An update made at once, of tokens at hand, is accepted at once, if its care-of
index is that of the care-of test: `mn_rr_refresh` makes the key anew and leaves the
index as it was. -/
theorem update_at_hand_accepted (order : ByteOrder) (old : Octets 64) (keyCn : Octets 20)
    (randBytes : Nat → List UInt8) (conf : Cn.CnConf) (h : Host)
    (isKbm : h.rrMnCalcKbm = mnKbm order old) (creates : h.Supplies .mhCreate)
    (adds : h.Supplies .coAddHoa) (events : List Event)
    (timely : Meets (World.step h (Crypto.hashes keyCn randBytes) conf
      (Mh.authentic keyCn randBytes conf.dupBeyond)) (World.Timely h) World.init events)
    (w : World) (finished : run (World.step h (Crypto.hashes keyCn randBytes) conf
      (Mh.authentic keyCn randBytes conf.dupBeyond)) World.init events = .ok w)
    (few : w.cn.node.cn.regenerations < 65000) (distinct : Distinct h w.mn.drawn)
    (hoa : In6Addr) (bule : Bulentry) (entry : w.mn.bul hoa = some bule)
    (now : Timespec) (forward : tsbefore w.clock now = false)
    (s' : Mn) (bule' : Bulentry) (refreshed : mnRrRefresh h w.mn now bule = .ok (s', bule'))
    (ready : bule'.state = .ready) (e : Bulentry) (alike : Alike bule' e)
    (current : e.dereg = false → ∀ rreCo, rrlGet s' .cotEntry e.coa = some rreCo →
      e.coNi = rreCo.index)
    (registers : tsisset e.request.lifetime = !e.dereg) (first second : UInt8) :
    Cn.cnBuCheck (Mh.authentic keyCn randBytes conf.dupBeyond) w.cn.node.cn now
      (e.received first second Crypto.hmacSha1) e.request = some .accepted := by
  have timed := Timed.run creates timely finished distinct
  have keys := (timed.keys few).1
  have view := inHand_of_mem entry (timed.ok.mn.bules hoa bule entry).hoa
  have held : Ok h (issuedToken Outlives w.cn.issued) w.mn.inits now none none
      (inHand w.mn bule) w.mn := by
    rw [view]
    exact timed.ok.mn.again
  obtain ⟨kept, -, same, -, atHand⟩ :=
    (held.moving bule.hoa).refresh (inHand_self w.mn bule) refreshed
  obtain ⟨rreHo, isHot, validHot, key⟩ := atHand ready
  rw [same.hoa] at isHot
  have homeOk := kept.get isHot
  obtain ⟨home, isHome, homeAddr, homeBit, homeIndex, homeToken, homeValid⟩ :=
    timed.valid few forward homeOk validHot
  obtain ⟨other, isOther, -, hoNi, -⟩ := homeOk.hot (rrlGet_eq.mp isHot).2
  rw [inHand_self, Option.some.injEq] at isOther
  subst isOther
  rw [(rrlGet_eq.mp isHot).2] at homeBit
  have homeOf : e.hoa = home.addr ∧ e.hoNi = home.index := by
    rw [alike.hoa, same.hoa, alike.hoNi, same.hoNi, homeAddr, homeIndex]
    exact ⟨rfl, hoNi (over_of_valid validHot)⟩
  cases dereg : e.dereg with
  | true =>
      rw [← alike.dereg, if_pos dereg] at key
      have keyed : e.Keyed order old home none := by
        refine ⟨homeBit, nofun, homeOf, nofun, ?_, ?_⟩
        · rw [registers, dereg]
          rfl
        · rw [alike.kbm, key, isKbm, homeToken]
          rfl
      rw [Mh.cnBuCheck_keyed keyed (keys.kept home isHome) nofun first second]
      simp only [Mh.verdict, homeValid, Option.map_none]
  | false =>
      rw [← alike.dereg, dereg, if_neg Bool.false_ne_true] at key
      obtain ⟨rreCo, isCot, -, valid, key⟩ := key
      have validCot := valid adds
      rw [← alike.coa] at isCot
      obtain ⟨careOf, isCareOf, careOfAddr, careOfBit, careOfIndex, careOfToken, careOfValid⟩ :=
        timed.valid few forward (kept.get isCot) validCot
      rw [(rrlGet_eq.mp isCot).2] at careOfBit
      have keyed : e.Keyed order old home (some careOf) := by
        constructor
        · exact homeBit
        · intro token member
          exact Option.some.inj member ▸ careOfBit
        · exact homeOf
        · intro token member
          rw [← Option.some.inj member, careOfAddr, careOfIndex]
          exact ⟨rfl, current dereg rreCo isCot⟩
        · rw [registers, dereg]
          rfl
        · rw [alike.kbm, key, isKbm, homeToken, ← careOfToken]
          rfl
      have isKept : ∀ token ∈ some careOf,
          token.Kept (Crypto.hashes keyCn randBytes) w.cn.node.cn :=
        fun token member => Option.some.inj member ▸ keys.kept careOf isCareOf
      rw [Mh.cnBuCheck_keyed keyed (keys.kept home isHome) isKept first second]
      simp only [Mh.verdict, homeValid, Option.map_some, careOfValid]

/-- Both tokens are at hand a minute later. -/
theorem update_a_minute_later_accepted : ∃ w bule s' bule',
    run sampleStep World.init sampleEvents = .ok w ∧
    w.mn.bul (Mh.sampleAddr 1) = some bule ∧
    mnRrRefresh sampleHost w.mn ⟨164, 0⟩ bule = .ok (s', bule') ∧
    Cn.cnBuCheck (Mh.authentic (Octets.zero 20) Mh.sampleBytes sampleConf.dupBeyond)
      w.cn.node.cn ⟨164, 0⟩ (bule'.received 0x12 0x34 Crypto.hmacSha1) bule'.request =
        some .accepted := by
  obtain ⟨w, bule, s', bule', finished, entry, refreshed, ready, index, registers, few, drawn,
    forward⟩ : ∃ w bule s' bule', run sampleStep World.init sampleEvents = .ok w ∧
      w.mn.bul (Mh.sampleAddr 1) = some bule ∧
      mnRrRefresh sampleHost w.mn ⟨164, 0⟩ bule = .ok (s', bule') ∧ bule'.state = .ready ∧
      (rrlGet s' .cotEntry bule'.coa).map Rrlentry.index = some bule'.coNi ∧
      tsisset bule'.request.lifetime = !bule'.dereg ∧
      w.cn.node.cn.regenerations < 65000 ∧ w.mn.drawn = 2 ∧
      tsbefore w.clock ⟨164, 0⟩ = false :=
    ⟨_, _, _, _, rfl, rfl, rfl, rfl, rfl, rfl, by decide, rfl, rfl⟩
  refine ⟨w, bule, s', bule', finished, entry, refreshed, ?_⟩
  refine update_at_hand_accepted .little (Octets.zero 64) (Octets.zero 20) Mh.sampleBytes sampleConf
    sampleHost rfl (fun _ => rfl) (fun _ => rfl) sampleEvents sampleEvents_timely w finished few (drawn ▸ sampleCookies_distinct)
    _ bule entry ⟨164, 0⟩ forward s' bule' refreshed ready bule'
    ⟨⟨rfl, rfl, rfl, rfl, rfl, rfl⟩, rfl, rfl, rfl⟩ ?_ registers 0x12 0x34
  intro _ rreCo here
  rw [here] at index
  exact (Option.some.inj index).symm

end OaiPmip.Retrout
