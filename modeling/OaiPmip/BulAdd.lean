import OaiPmip.HashKeys
import OaiPmip.TQueue

/-!
# Entries of the binding update list, bul.c

`bul_add` links an entry into two tables, has the kernel block or transform its
packets and queues its timer.  The two labels at its end take the entry out of the
tables again and return whatever `ret` holds.  `bul_delete` is what a caller does with
an entry that was not added.
-/

set_option autoImplicit false

namespace OaiPmip.Bul

open OaiPmip.ChainTable OaiPmip.HashChains OaiPmip.HashKeys OaiPmip.TQueue

def bulBuckets : Nat := 32

instance : NeZero bulBuckets := ⟨by decide⟩

abbrev BulHash := Hash bulBuckets (AddrKey × Ptr)

inductive BulType where
  | bulEntry
  | nonMipCnEntry
  | unreachEntry
  deriving DecidableEq

/-- The functions of mn.c that an entry is called back with. -/
inductive Callback where
  | bulExpire
  | buResend
  | buRefresh
  | mnRrCheckEntry
  deriving DecidableEq

structure HomeAddrInfo where
  bul : BulHash
  homeBlock : UInt8
  mobRtr : UInt16

structure Bulentry where
  home : Ptr
  peerAddr : In6Addr
  hoa : In6Addr
  type : BulType
  flags : UInt16
  lastsent : Timespec
  lifetime : Timespec
  delay : Timespec
  callback : Callback

/-- The task queue; an element is known by the entry that it lies in. -/
structure Timers where
  tqList : List Ptr
  expires : Ptr → Timespec
  task : Ptr → Option Callback
  curr : Option Ptr

structure State where
  bulHash : BulHash
  hai : Ptr → HomeAddrInfo
  bule : Ptr → Bulentry
  timers : Timers

def State.setHai (s : State) (home : Ptr) (hai : HomeAddrInfo) : State :=
  { s with hai := Function.update s.hai home hai }

def State.setBule (s : State) (bule : Ptr) (e : Bulentry) : State :=
  { s with bule := Function.update s.bule bule e }

/-- What the C library and the kernel answer in one call: the two `malloc`s, the clock,
`pre_bu_bul_update` with the `home_block` that it leaves, and `xfrm_mip_policy_add` for
the two blocks. -/
structure Outcome where
  mallocBul : Bool
  mallocHome : Bool
  now : Timespec
  preBuBulUpdate : UInt8 × Int
  policyHoa : Int
  policyRa : Int

/-- `IP6_MH_BU_HOME`, as a little-endian host loads it. -/
def ip6MhBuHome : UInt16 := 0x0040

def homeLinkBlock : UInt8 := 0x01

def homeAddrBlock : UInt8 := 0x02

def nemoRaBlock : UInt8 := 0x08

def nemoFwdBlock : UInt8 := 0x10

def hashGet (type : HashType) (h : BulHash) (ourAddr peerAddr : In6Addr) : Option (Option Ptr) :=
  (chainGet (calcAddrHash bulBuckets) Prod.fst h (addrKey type ourAddr peerAddr)).map
    fun found => found.map Prod.snd

/-- `bul_get`; the outer `none` is a bad read of the memory. -/
def bulGet (s : State) (hinfo : Option Ptr) (ourAddr peerAddr : In6Addr) : Option (Option Ptr) :=
  match hinfo with
  | some hinfo => hashGet .singleAddr (s.hai hinfo).bul ourAddr peerAddr
  | none => hashGet .doubleAddr s.bulHash ourAddr peerAddr

def xfrmBlockHoa (hai : HomeAddrInfo) (policyAdd : Int) : HomeAddrInfo × Int :=
  ({ hai with homeBlock := hai.homeBlock ||| homeAddrBlock }, if policyAdd ≠ 0 then -1 else 0)

def xfrmBlockRa (hai : HomeAddrInfo) (policyAdd : Int) : HomeAddrInfo × Int :=
  ({ hai with homeBlock := hai.homeBlock ||| nemoRaBlock }, policyAdd)

def addTaskAbs (t : Timers) (expires : Timespec) (tqi : Ptr) (task : Callback) : Timers :=
  let list := if tsisset (t.expires tqi) then listDel t.tqList tqi else t.tqList
  let expiresAt := Function.update t.expires tqi expires
  { tqList := sortedInsert expiresAt tqi list
    expires := expiresAt
    task := Function.update t.task tqi (some task)
    curr := if t.curr = some tqi then none else t.curr }

/-- What is asked of the kernel, with `ret` so far: the new `ret`, and whether
`home_bul_free` is next. -/
def askKernel (s : State) (bule : Ptr) (o : Outcome) (ret : Int) : State × Int × Bool :=
  let e := s.bule bule
  let hai := s.hai e.home
  match e.type with
  | .bulEntry =>
      let s := s.setHai e.home { hai with homeBlock := o.preBuBulUpdate.1 }
      (s, o.preBuBulUpdate.2, o.preBuBulUpdate.2 < 0)
  | .nonMipCnEntry =>
      if e.flags &&& ip6MhBuHome ≠ 0 then
        let (blocked, blockRet) := xfrmBlockHoa hai o.policyHoa
        if blockRet < 0 then (s.setHai e.home blocked, ret, true)
        else if hai.mobRtr ≠ 0 then
          let (blocked, blockRet) := xfrmBlockRa blocked o.policyRa
          (s.setHai e.home blocked, ret, blockRet < 0)
        else (s.setHai e.home blocked, ret, false)
      else (s, ret, false)
  | .unreachEntry => (s, ret, false)

/-- The label `bul_free`. -/
def bulFree (s : State) (bule : Ptr) (ret : Int) : Option (State × Int) := do
  let e := s.bule bule
  let bulHash ← hashDelete .doubleAddr s.bulHash e.hoa e.peerAddr
  some ({ s with bulHash := bulHash }, ret)

/-- The label `home_bul_free`. -/
def homeBulFree (s : State) (bule : Ptr) (ret : Int) : Option (State × Int) := do
  let e := s.bule bule
  let hai := s.hai e.home
  let bul ← hashDelete .singleAddr hai.bul e.hoa e.peerAddr
  bulFree (s.setHai e.home { hai with bul := bul }) bule ret

/-- The timer, `delay` after `lastsent`. -/
def bulTimer (s : State) (bule : Ptr) : State :=
  let e := s.bule bule
  { s with timers := addTaskAbs s.timers (tsadd e.delay e.lastsent) bule e.callback }

def bulAddHome (s : State) (bule : Ptr) (o : Outcome) : Option (State × Int) := do
  let e := s.bule bule
  let hai := s.hai e.home
  let (bul, ret) ← hashAdd .singleAddr hai.bul bule in6addrAny e.peerAddr o.mallocHome
  let s := s.setHai e.home { hai with bul := bul }
  if ret < 0 then bulFree s bule ret
  else
    let (s, ret, refused) := askKernel (s.setBule bule { e with lastsent := o.now }) bule o ret
    if refused then homeBulFree s bule ret else some (bulTimer s bule, 0)

/-- `bul_add`; `none` is the assertion on the lifetime, or a bad read of the memory. -/
def bulAdd (s : State) (bule : Ptr) (o : Outcome) : Option (State × Int) :=
  let e := s.bule bule
  if tsisset e.lifetime then do
    let (bulHash, ret) ← hashAdd .doubleAddr s.bulHash bule e.hoa e.peerAddr o.mallocBul
    let s := { s with bulHash := bulHash }
    if ret < 0 then some (s, ret) else bulAddHome s bule o
  else none

def delTask (t : Timers) (elem : Ptr) : Timers :=
  { t with
    tqList := listDel t.tqList elem
    expires := Function.update t.expires elem ⟨0, 0⟩
    curr := if t.curr = some elem then none else t.curr }

def unblock (block : UInt8) (hai : HomeAddrInfo) : HomeAddrInfo :=
  if hai.homeBlock &&& block ≠ 0 then { hai with homeBlock := hai.homeBlock &&& ~~~block } else hai

/-- `xfrm_unblock_link`, `xfrm_unblock_hoa`, `xfrm_unblock_ra` and `xfrm_unblock_fwd`. -/
def xfrmUnblock (hai : HomeAddrInfo) : HomeAddrInfo :=
  unblock nemoFwdBlock (unblock nemoRaBlock (unblock homeAddrBlock (unblock homeLinkBlock hai)))

@[simp] theorem unblock_bul (block : UInt8) (hai : HomeAddrInfo) :
    (unblock block hai).bul = hai.bul := by
  simp only [unblock]
  split
  · rfl
  · rfl

@[simp] theorem xfrmUnblock_bul (hai : HomeAddrInfo) : (xfrmUnblock hai).bul = hai.bul := by
  simp [xfrmUnblock]

/-- `bul_delete`, up to the addresses that it resets and the memory that it frees. -/
def bulDelete (s : State) (bule : Ptr) : Option State := do
  let e := s.bule bule
  let hai := s.hai e.home
  let bulHash ← hashDelete .doubleAddr s.bulHash e.hoa e.peerAddr
  let bul ← hashDelete .singleAddr hai.bul in6addrAny e.peerAddr
  let hai := { hai with bul := bul }
  let hai := if e.flags &&& ip6MhBuHome ≠ 0 ∧ e.type ≠ .unreachEntry then xfrmUnblock hai else hai
  some ({ s with bulHash := bulHash, timers := delTask s.timers bule }.setHai e.home hai)

/-! ## The tables and the kernel -/

def Held (h : BulHash) : Prop := ∃ chains, Represents h chains

section Tables
variable {type : HashType} {h : BulHash} {ourAddr peerAddr : In6Addr}

theorem hashGet_spec {chains : Table bulBuckets (Ptr × AddrKey × Ptr)} (rep : Represents h chains) :
    hashGet type h ourAddr peerAddr =
      some ((get (calcAddrHash bulBuckets) (nodeKey Prod.fst) chains
        (addrKey type ourAddr peerAddr)).map fun node => node.2.2) := by
  rw [hashGet, chainGet_spec (calcAddrHash bulBuckets) Prod.fst rep, Option.map_some,
    Option.map_map]
  rfl

theorem get_of_absent {chains : Table bulBuckets (Ptr × AddrKey × Ptr)} (rep : Represents h chains)
    (absent : hashGet type h ourAddr peerAddr = some none) :
    get (calcAddrHash bulBuckets) (nodeKey Prod.fst) chains (addrKey type ourAddr peerAddr) =
      none := by
  rw [hashGet_spec rep] at absent
  exact Option.map_eq_none_iff.mp (Option.some.inj absent)

structure Restored (type : HashType) (ourAddr peerAddr : In6Addr) (h h' : BulHash) : Prop where
  held : Held h'
  same : contents h' = contents h
  absent : hashGet type h' ourAddr peerAddr = some none

def Removable (type : HashType) (ourAddr peerAddr : In6Addr) (h h' : BulHash) : Prop :=
  ∃ h'', hashDelete type h' ourAddr peerAddr = some h'' ∧ Restored type ourAddr peerAddr h h''

structure Holds (type : HashType) (ourAddr peerAddr : In6Addr) (h : BulHash) (bule : Ptr)
    (h' : BulHash) : Prop where
  held : Held h'
  found : hashGet type h' ourAddr peerAddr = some (some bule)
  removable : Removable type ourAddr peerAddr h h'

theorem hashAdd_absent (held : Held h) (absent : hashGet type h ourAddr peerAddr = some none)
    (bule : Ptr) :
    ∃ h', hashAdd type h bule ourAddr peerAddr true = some (h', 0) ∧
      Holds type ourAddr peerAddr h bule h' := by
  obtain ⟨chains, rep⟩ := held
  have missing := get_of_absent rep absent
  rcases chainAdd_spec (calcAddrHash bulBuckets) Prod.fst rep
      (addrKey type ourAddr peerAddr, bule) with ⟨known, -⟩ | ⟨-, h', added, rep'⟩
  · obtain ⟨node, member, same⟩ := List.mem_map.mp known
    have other := List.find?_eq_none.mp missing node ((List.dropLast_sublist _).subset member)
    exact absurd (decide_eq_true same) other
  · obtain ⟨h'', deleted, rep''⟩ := chainDelete_spec (calcAddrHash bulBuckets) Prod.fst rep'
      (addrKey type ourAddr peerAddr)
    have node := @get_append _ _ _ _ (calcAddrHash bulBuckets) (nodeKey Prod.fst) chains
      (h.top, addrKey type ourAddr peerAddr, bule) missing
    have erased := @erase_append _ _ _ _ (calcAddrHash bulBuckets) (nodeKey Prod.fst) chains
      (h.top, addrKey type ourAddr peerAddr, bule) missing
    have before : Represents h'' chains := by
      rw [← erased]
      exact rep''
    refine ⟨h', added, ⟨_, rep'⟩, ?_, h'', deleted, ⟨_, before⟩, ?_, ?_⟩
    · rw [hashGet_spec rep']
      exact congrArg (fun found => some (Option.map (fun node => node.2.2) found)) node
    · funext b
      rw [contents_spec before, contents_spec rep]
    · rw [hashGet_spec before, missing]
      rfl

theorem Restored.removable {h' : BulHash} (restored : Restored type ourAddr peerAddr h h') :
    Removable type ourAddr peerAddr h h' := by
  obtain ⟨chains, rep⟩ := restored.held
  have missing := get_of_absent rep restored.absent
  obtain ⟨h'', deleted, rep''⟩ := chainDelete_spec (calcAddrHash bulBuckets) Prod.fst rep
    (addrKey type ourAddr peerAddr)
  rw [erase_of_get_none missing] at rep''
  refine ⟨h'', deleted, ⟨_, rep''⟩, ?_, ?_⟩
  · funext b
    rw [← restored.same, contents_spec rep'', contents_spec rep]
  · rw [hashGet_spec rep'', missing]
    rfl

theorem Restored.refl (held : Held h) (absent : hashGet type h ourAddr peerAddr = some none) :
    Restored type ourAddr peerAddr h h :=
  ⟨held, rfl, absent⟩

theorem hashAdd_noMemory (bule : Ptr) :
    hashAdd type h bule ourAddr peerAddr false = some (h, enomem) := rfl

end Tables

def BlockRefused (s : State) (bule : Ptr) (o : Outcome) : Prop :=
  (s.bule bule).type = .nonMipCnEntry ∧ (s.bule bule).flags &&& ip6MhBuHome ≠ 0 ∧
    (o.policyHoa ≠ 0 ∨ (s.hai (s.bule bule).home).mobRtr ≠ 0 ∧ o.policyRa < 0)

instance (s : State) (bule : Ptr) (o : Outcome) : Decidable (BlockRefused s bule o) :=
  inferInstanceAs (Decidable (_ ∧ _))

/-- Only the flags of the blocks differ. -/
structure Frame (s t : State) : Prop where
  bulHash : t.bulHash = s.bulHash
  bul : ∀ home, (t.hai home).bul = (s.hai home).bul
  bule : t.bule = s.bule
  timers : t.timers = s.timers

theorem Frame.refl (s : State) : Frame s s := ⟨rfl, fun _ => rfl, rfl, rfl⟩

theorem frame_setHai (s : State) {home : Ptr} {hai : HomeAddrInfo}
    (same : hai.bul = (s.hai home).bul) : Frame s (s.setHai home hai) where
  bulHash := rfl
  bul := by
    intro other
    by_cases here : other = home
    · rw [here]
      simpa [State.setHai] using same
    · simp [State.setHai, Function.update_of_ne here]
  bule := rfl
  timers := rfl

section Kernel
variable {s : State} {bule : Ptr} {o : Outcome} {ret : Int}

theorem askKernel_frame : Frame s (askKernel s bule o ret).1 := by
  simp only [askKernel]
  split
  · exact frame_setHai s rfl
  · split
    · split
      · exact frame_setHai s rfl
      · split
        · exact frame_setHai s rfl
        · exact frame_setHai s rfl
    · exact Frame.refl s
  · exact Frame.refl s

/-- A refusal leaves `ret` as it was where it is one of the blocks, and only there. -/
theorem askKernel_cases :
    (askKernel s bule o ret).2.2 = false ∧ ¬BlockRefused s bule o ∨
    (askKernel s bule o ret).2.2 = true ∧ (askKernel s bule o ret).2.1 < 0 ∧
      ¬BlockRefused s bule o ∨
    (askKernel s bule o ret).2.2 = true ∧ (askKernel s bule o ret).2.1 = ret ∧
      BlockRefused s bule o := by
  cases type : (s.bule bule).type with
  | bulEntry =>
      have other : ¬BlockRefused s bule o := fun refused => by
        cases type.symm.trans refused.1
      simp only [askKernel, type, decide_eq_true_eq, decide_eq_false_iff_not]
      by_cases failed : o.preBuBulUpdate.2 < 0
      · exact .inr (.inl ⟨failed, failed, other⟩)
      · exact .inl ⟨failed, other⟩
  | unreachEntry =>
      have other : ¬BlockRefused s bule o := fun refused => by
        cases type.symm.trans refused.1
      simp only [askKernel, type]
      exact .inl ⟨trivial, other⟩
  | nonMipCnEntry =>
      simp only [askKernel, type, xfrmBlockHoa, xfrmBlockRa, BlockRefused]
      by_cases home : (s.bule bule).flags &&& ip6MhBuHome ≠ 0
      · by_cases hoa : o.policyHoa ≠ 0
        · simp [home, hoa]
        · by_cases router : (s.hai (s.bule bule).home).mobRtr ≠ 0
          · by_cases ra : o.policyRa < 0
            · simp [home, hoa, router, ra]
            · simp [home, hoa, router, ra]
          · simp [home, hoa, router]
      · simp [home]

end Kernel

/-! ## All or nothing -/

structure Ok (s : State) : Prop where
  held : Held s.bulHash
  home : ∀ hai, Held (s.hai hai).bul

def Added (s : State) (bule : Ptr) (e : Bulentry) : Prop :=
  bulGet s none e.hoa e.peerAddr = some (some bule) ∧
    bulGet s (some e.home) e.hoa e.peerAddr = some (some bule) ∧ bule ∈ s.timers.tqList

/-- The tables hold what they held and the queue is the same. -/
structure Same (s t : State) : Prop where
  bulHash : contents t.bulHash = contents s.bulHash
  bul : ∀ home, contents (t.hai home).bul = contents (s.hai home).bul
  timers : t.timers = s.timers

/-- `ret` is 0 for an added entry, and where it is not added nothing is left of it. -/
def AllOrNothing (s : State) (bule : Ptr) (t : State) (ret : Int) : Prop :=
  (ret = 0 ↔ Added t bule (s.bule bule)) ∧ (¬Added t bule (s.bule bule) → ret < 0 ∧ Same s t)

theorem addTaskAbs_queued (t : Timers) (expires : Timespec) (tqi : Ptr) (task : Callback) :
    tqi ∈ (addTaskAbs t expires tqi task).tqList :=
  (mem_sortedInsert _ _ _ _).mpr (.inl rfl)

theorem added_all {s t : State} {bule : Ptr} (there : Added t bule (s.bule bule)) :
    AllOrNothing s bule t 0 :=
  ⟨⟨fun _ => there, fun _ => rfl⟩, fun gone => absurd there gone⟩

/-- For an entry that was taken back only the sign of `ret` matters. -/
theorem back_iff {s t : State} {bule : Ptr} {ret : Int} (same : Same s t)
    (gone : ¬Added t bule (s.bule bule)) : AllOrNothing s bule t ret ↔ ret < 0 := by
  constructor
  · intro all
    exact (all.2 gone).1
  · intro negative
    refine ⟨⟨?_, fun there => absurd there gone⟩, fun _ => ⟨negative, same⟩⟩
    intro zero
    omega

/-- What a call leaves of an entry `e`: the tables are as they were once it is removed. -/
structure Left (s : State) (e : Bulentry) (t : State) : Prop where
  ok : Ok t
  global : Removable .doubleAddr e.hoa e.peerAddr s.bulHash t.bulHash
  home : Removable .singleAddr e.hoa e.peerAddr (s.hai e.home).bul (t.hai e.home).bul
  others : ∀ hai, hai ≠ e.home → (t.hai hai).bul = (s.hai hai).bul

section Paths
variable {s t : State} {bule : Ptr} {o : Outcome} {e : Bulentry} {ret : Int}

theorem home_cases {P : Ptr → BulHash → Prop} {home : Ptr} (here : P home (t.hai home).bul)
    (before : ∀ hai, P hai (s.hai hai).bul)
    (others : ∀ hai, hai ≠ home → (t.hai hai).bul = (s.hai hai).bul) :
    ∀ hai, P hai (t.hai hai).bul := by
  intro hai
  by_cases same : hai = home
  · rw [same]
    exact here
  · rw [others hai same]
    exact before hai

theorem taken_back (ok : Ok s) (global : Restored .doubleAddr e.hoa e.peerAddr s.bulHash t.bulHash)
    (home : Restored .singleAddr e.hoa e.peerAddr (s.hai e.home).bul (t.hai e.home).bul)
    (others : ∀ hai, hai ≠ e.home → (t.hai hai).bul = (s.hai hai).bul)
    (timers : t.timers = s.timers) : Left s e t ∧ Same s t ∧ ¬Added t bule e := by
  refine ⟨⟨⟨global.held, ?_⟩, global.removable, home.removable, others⟩,
    ⟨global.same, ?_, timers⟩, ?_⟩
  · exact @home_cases s t (fun _ bul => Held bul) e.home home.held ok.home others
  · exact @home_cases s t (fun hai bul => contents bul = contents (s.hai hai).bul) e.home home.same
      (fun _ => rfl) others
  · intro added
    cases global.absent.symm.trans added.1

theorem bulFree_eq {now : Timespec} {g : BulHash} (entry : t.bule bule = { e with lastsent := now })
    (deleted : hashDelete .doubleAddr t.bulHash e.hoa e.peerAddr = some g) :
    bulFree t bule ret = some ({ t with bulHash := g }, ret) := by
  simp only [bulFree, entry, deleted]
  rfl

theorem homeBulFree_eq {now : Timespec} {g b : BulHash}
    (entry : t.bule bule = { e with lastsent := now })
    (deletedHome : hashDelete .singleAddr (t.hai e.home).bul e.hoa e.peerAddr = some b)
    (deleted : hashDelete .doubleAddr t.bulHash e.hoa e.peerAddr = some g) :
    homeBulFree t bule ret =
      some ({ t.setHai e.home { t.hai e.home with bul := b } with bulHash := g }, ret) := by
  simp only [homeBulFree, entry, deletedHome]
  exact bulFree_eq entry deleted

def linked (s : State) (bule : Ptr) (now : Timespec) (bulHash bul : BulHash) : State :=
  let e := s.bule bule
  let hai := s.hai e.home
  (({ s with bulHash := bulHash }.setHai e.home { hai with bul := bul })).setBule bule
    { e with lastsent := now }

theorem linked_refused {now : Timespec} {bulHash bul : BulHash} :
    BlockRefused (linked s bule now bulHash bul) bule o ↔ BlockRefused s bule o := by
  simp [BlockRefused, linked, State.setBule, State.setHai]

theorem linked_bul {now : Timespec} {bulHash bul : BulHash} :
    ((linked s bule now bulHash bul).hai (s.bule bule).home).bul = bul := by
  simp [linked, State.setBule, State.setHai]

theorem linked_others {now : Timespec} {bulHash bul : BulHash} (hai : Ptr)
    (other : hai ≠ (s.bule bule).home) :
    ((linked s bule now bulHash bul).hai hai).bul = (s.hai hai).bul := by
  simp [linked, State.setBule, State.setHai, Function.update_of_ne other]

/-- From the call to the kernel on: the entry stays and is timed, or is taken back with
the `ret` of `bul_add` so far. -/
theorem bulAdd_linked {bulHash bul : BulHash}
    (asserted : tsisset (s.bule bule).lifetime = true)
    (both : o.mallocBul = true ∧ o.mallocHome = true)
    (added : hashAdd .doubleAddr s.bulHash bule (s.bule bule).hoa (s.bule bule).peerAddr true =
      some (bulHash, 0))
    (addedHome : hashAdd .singleAddr (s.hai (s.bule bule).home).bul bule (s.bule bule).hoa
      (s.bule bule).peerAddr true = some (bul, 0)) :
    bulAdd s bule o =
      let asked := askKernel (linked s bule o.now bulHash bul) bule o 0
      if asked.2.2 then homeBulFree asked.1 bule asked.2.1
      else some (bulTimer asked.1 bule, 0) := by
  have addedAny : hashAdd .singleAddr (s.hai (s.bule bule).home).bul bule in6addrAny
      (s.bule bule).peerAddr true = some (bul, 0) := addedHome
  simp only [bulAdd, asserted, if_true, both.1, added, Option.bind_eq_bind, Option.bind_some,
    bulAddHome, both.2, addedAny]
  rfl

theorem linked_done (ok : Ok s) {bulHash bul : BulHash}
    (global : Holds .doubleAddr (s.bule bule).hoa (s.bule bule).peerAddr s.bulHash bule bulHash)
    (home : Holds .singleAddr (s.bule bule).hoa (s.bule bule).peerAddr
      (s.hai (s.bule bule).home).bul bule bul) :
    let asked := askKernel (linked s bule o.now bulHash bul) bule o 0
    ∃ t ret, (if asked.2.2 then homeBulFree asked.1 bule asked.2.1
        else some (bulTimer asked.1 bule, 0)) = some (t, ret) ∧
      t.bule bule = { s.bule bule with lastsent := o.now } ∧ Left s (s.bule bule) t ∧
      (asked.2.2 = false ∧ ret = 0 ∧ Added t bule (s.bule bule) ∨
        asked.2.2 = true ∧ ret = asked.2.1 ∧ Same s t ∧ ¬Added t bule (s.bule bule)) := by
  intro asked
  have frame : Frame (linked s bule o.now bulHash bul) asked.1 := askKernel_frame
  have entry : asked.1.bule bule = { s.bule bule with lastsent := o.now } := by
    rw [frame.bule]
    exact Function.update_self _ _ _
  have bulHash_eq : asked.1.bulHash = bulHash := frame.bulHash
  have bul_eq : (asked.1.hai (s.bule bule).home).bul = bul := (frame.bul _).trans linked_bul
  have others : ∀ hai, hai ≠ (s.bule bule).home → (asked.1.hai hai).bul = (s.hai hai).bul :=
    fun hai other => (frame.bul hai).trans (linked_others hai other)
  cases asked.2.2 with
  | false =>
      refine ⟨bulTimer asked.1 bule, 0, rfl, entry,
        ⟨⟨bulHash_eq ▸ global.held, ?_⟩, bulHash_eq ▸ global.removable,
          bul_eq ▸ home.removable, others⟩, .inl ⟨rfl, rfl, ?_, ?_, ?_⟩⟩
      · exact @home_cases s asked.1 (fun _ bul => Held bul) (s.bule bule).home
          (bul_eq ▸ home.held) ok.home others
      · show hashGet .doubleAddr asked.1.bulHash _ _ = _
        rw [bulHash_eq, global.found]
      · show hashGet .singleAddr (asked.1.hai (s.bule bule).home).bul _ _ = _
        rw [bul_eq, home.found]
      · exact addTaskAbs_queued _ _ _ _
  | true =>
      obtain ⟨g, deleted, globalBack⟩ := global.removable
      obtain ⟨b, deletedHome, homeBack⟩ := home.removable
      have freed := @homeBulFree_eq asked.1 bule (s.bule bule) asked.2.1 o.now g b entry
        (bul_eq.symm ▸ deletedHome) (bulHash_eq.symm ▸ deleted)
      refine ⟨_, asked.2.1, freed, entry, ?_⟩
      have back := @taken_back s
        { asked.1.setHai (s.bule bule).home
            { asked.1.hai (s.bule bule).home with bul := b } with bulHash := g }
        bule (s.bule bule) ok globalBack ?_ ?_ frame.timers
      · exact ⟨back.1, .inr ⟨rfl, rfl, back.2⟩⟩
      · simpa [State.setHai] using homeBack
      · intro hai other
        simpa [State.setHai, Function.update_of_ne other] using others hai other

end Paths

def Lost (s : State) (bule : Ptr) (o : Outcome) : Prop :=
  o.mallocBul = true ∧ o.mallocHome = true ∧ BlockRefused s bule o

instance (s : State) (bule : Ptr) (o : Outcome) : Decidable (Lost s bule o) :=
  inferInstanceAs (Decidable (_ ∧ _))

section Whole
variable {s : State} {bule : Ptr} (ok : Ok s) (asserted : tsisset (s.bule bule).lifetime = true)
  (absent : bulGet s none (s.bule bule).hoa (s.bule bule).peerAddr = some none)
  (absentHome : bulGet s (some (s.bule bule).home) (s.bule bule).hoa (s.bule bule).peerAddr =
    some none)
include ok asserted absent absentHome

/-- The entry is added, or it is taken back with a `ret` that is negative unless a block
was refused. -/
theorem bulAdd_spec (o : Outcome) :
    ∃ t ret now, bulAdd s bule o = some (t, ret) ∧
      t.bule bule = { s.bule bule with lastsent := now } ∧ Left s (s.bule bule) t ∧
      (ret = 0 ∧ Added t bule (s.bule bule) ∧ ¬Lost s bule o ∨
        Same s t ∧ ¬Added t bule (s.bule bule) ∧ (ret < 0 ↔ ¬Lost s bule o)) := by
  have heldHome := ok.home (s.bule bule).home
  cases roomBul : o.mallocBul with
  | false =>
      have returned : bulAdd s bule o = some (s, enomem) := by
        simp only [bulAdd, asserted, if_true, roomBul, hashAdd_noMemory]
        rfl
      obtain ⟨left, back⟩ := @taken_back s s bule (s.bule bule) ok
        (Restored.refl ok.held absent) (Restored.refl heldHome absentHome) (fun _ _ => rfl) rfl
      refine ⟨s, enomem, _, returned, rfl, left, .inr ⟨back.1, back.2, ?_⟩⟩
      simp [enomem, Lost, roomBul]
  | true =>
      obtain ⟨bulHash, added, global⟩ := hashAdd_absent ok.held absent bule
      cases roomHome : o.mallocHome with
      | false =>
          have returned : bulAdd s bule o =
              bulFree ({ s with bulHash := bulHash }.setHai (s.bule bule).home
                (s.hai (s.bule bule).home)) bule enomem := by
            simp only [bulAdd, asserted, if_true, roomBul, added, bulAddHome, roomHome,
              hashAdd_noMemory]
            rfl
          obtain ⟨g, deleted, globalBack⟩ := global.removable
          have freed := @bulFree_eq
            ({ s with bulHash := bulHash }.setHai (s.bule bule).home (s.hai (s.bule bule).home))
            bule (s.bule bule) enomem (s.bule bule).lastsent g rfl deleted
          obtain ⟨left, back⟩ := @taken_back s
            { s.setHai (s.bule bule).home (s.hai (s.bule bule).home) with bulHash := g }
            bule (s.bule bule) ok globalBack
            (by simpa [State.setHai] using Restored.refl heldHome absentHome)
            (by simp [State.setHai]) rfl
          refine ⟨_, enomem, _, returned.trans freed, rfl, left, .inr ⟨back.1, back.2, ?_⟩⟩
          simp [enomem, Lost, roomHome]
      | true =>
          obtain ⟨bul, addedHome, home⟩ := hashAdd_absent heldHome absentHome bule
          obtain ⟨t, ret, returned, entry, left, result⟩ := @linked_done s bule o ok bulHash bul
            global home
          refine ⟨t, ret, o.now, (bulAdd_linked asserted ⟨roomBul, roomHome⟩ added addedHome).trans
            returned, entry, left, ?_⟩
          have kernel := @askKernel_cases (linked s bule o.now bulHash bul) bule o 0
          simp only [linked_refused] at kernel
          simp only [Lost, roomBul, roomHome, true_and]
          rcases result with ⟨granted, zero, there⟩ | ⟨refused, isRet, same, gone⟩
          · rcases kernel with ⟨-, fine⟩ | ⟨refused, -⟩ | ⟨refused, -⟩
            · exact .inl ⟨zero, there, fine⟩
            · cases granted.symm.trans refused
            · cases granted.symm.trans refused
          · refine .inr ⟨same, gone, ?_⟩
            rcases kernel with ⟨granted, -⟩ | ⟨-, negative, fine⟩ | ⟨-, zero, block⟩
            · cases granted.symm.trans refused
            · exact iff_of_true (isRet ▸ negative) fine
            · exact iff_of_false (by rw [isRet, zero]; decide) (fun other => other block)

/-- However `bul_add` ends, `bul_delete` takes the entry out of the tables and the queue. -/
theorem bulDelete_undoes {o : Outcome} {t : State} {ret : Int}
    (returned : bulAdd s bule o = some (t, ret)) :
    ∃ u, bulDelete t bule = some u ∧ contents u.bulHash = contents s.bulHash ∧
      (∀ home, contents (u.hai home).bul = contents (s.hai home).bul) ∧
      bule ∉ u.timers.tqList := by
  obtain ⟨t', ret', now, returned', entry, left, -⟩ := bulAdd_spec ok asserted absent absentHome o
  cases returned.symm.trans returned'
  obtain ⟨g, deleted, global⟩ := left.global
  obtain ⟨b, deletedHome, home⟩ := left.home
  have deletedAny : hashDelete .singleAddr (t.hai (s.bule bule).home).bul in6addrAny
      (s.bule bule).peerAddr = some b := deletedHome
  simp only [bulDelete, entry, deleted, deletedAny, Option.bind_eq_bind, Option.bind_some]
  refine ⟨_, rfl, global.same, ?_, by simp [State.setHai, delTask]⟩
  refine @home_cases s _ (fun hai bul => contents bul = contents (s.hai hai).bul)
    (s.bule bule).home ?_ (fun _ => rfl) ?_
  · rw [← home.same]
    simp only [State.setHai, Function.update_self]
    split
    · rw [xfrmUnblock_bul]
    · rfl
  · intro hai other
    simpa [State.setHai, Function.update_of_ne other] using left.others hai other

/-- `bul_add` is all or nothing but where both tables have room and a block is refused:
there it returns 0 for an entry that it took back. -/
theorem bul_add_iff (o : Outcome) :
    ∃ t ret, bulAdd s bule o = some (t, ret) ∧ Ok t ∧
      (AllOrNothing s bule t ret ↔ ¬Lost s bule o) := by
  obtain ⟨t, ret, now, returned, -, left, result⟩ := bulAdd_spec ok asserted absent absentHome o
  refine ⟨t, ret, returned, left.ok, ?_⟩
  rcases result with ⟨rfl, there, fine⟩ | ⟨same, gone, sign⟩
  · exact iff_of_true (added_all there) fine
  · exact (back_iff same gone).trans sign

end Whole

def homeAgent : In6Addr := ⟨[0x20, 1, 0x0d, 0xb8, 0, 2] ++ List.replicate 9 0 ++ [1], rfl⟩

def homeAddress : In6Addr := ⟨[0x20, 1, 0x0d, 0xb8, 0, 2] ++ List.replicate 9 0 ++ [7], rfl⟩

/-- `create_bule` and `bule_invalidate` with `block`, for a home registration. -/
def blocking : Bulentry where
  home := 0
  peerAddr := homeAgent
  hoa := homeAddress
  type := .nonMipCnEntry
  flags := ip6MhBuHome
  lastsent := ⟨900, 0⟩
  lifetime := ⟨60, 0⟩
  delay := ⟨60, 0⟩
  callback := .bulExpire

def blockingState : State where
  bulHash := hashInit bulBuckets (AddrKey × Ptr)
  hai := fun _ => ⟨hashInit bulBuckets (AddrKey × Ptr), 0, 0⟩
  bule := fun _ => blocking
  timers := ⟨[], fun _ => ⟨0, 0⟩, fun _ => none, none⟩

/-- There is memory, and the kernel answers `policy` to a new policy. -/
def answers (policy : Int) : Outcome where
  mallocBul := true
  mallocHome := true
  now := ⟨1000, 0⟩
  preBuBulUpdate := (0, 0)
  policyHoa := policy
  policyRa := 0

theorem blockingState_ok : Ok blockingState :=
  ⟨⟨_, represents_hashInit⟩, fun _ => ⟨_, represents_hashInit⟩⟩

theorem bul_add_blocked :
    ∃ t ret, bulAdd blockingState 7 (answers 0) = some (t, ret) ∧
      AllOrNothing blockingState 7 t ret := by
  obtain ⟨t, ret, returned, -, iff⟩ :=
    @bul_add_iff blockingState 7 blockingState_ok (by decide) (by decide) (by decide) (answers 0)
  exact ⟨t, ret, returned, iff.mpr (by decide)⟩

/-- The kernel refuses to block the home address: the entry is in no table and has no
timer, and `bul_add` returns 0. -/
theorem bul_add_refused :
    ∃ t, bulAdd blockingState 7 (answers (-1)) = some (t, 0) ∧
      bulGet t none homeAddress homeAgent = some none ∧
      bulGet t (some 0) homeAddress homeAgent = some none ∧ t.timers.tqList = [] ∧
      ¬AllOrNothing blockingState 7 t 0 := by
  refine ⟨_, rfl, by decide +kernel, by decide +kernel, rfl, ?_⟩
  intro all
  have queued := (all.1.mp rfl).2.2
  exact List.not_mem_nil queued

end OaiPmip.Bul
