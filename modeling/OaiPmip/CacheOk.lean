import OaiPmip.CacheFrame

/-!
# The invariant of the binding cache

`HashOk` holds of a cache whose nodes are live entries with distinct keys, each
in the bucket of its key, and whose queued timers belong to live entries.  Under
it no lookup touches a released entry, a lookup finds the one entry of its key,
and a deletion by key removes the entry it was asked to.
-/

set_option autoImplicit false

namespace OaiPmip

open OaiPmip.ChainTable OaiPmip.HashChains OaiPmip.HashKeys OaiPmip.Runs

namespace Daemon

/-- What `pmip_hash_get` finds. -/
def cached (d : Daemon) (mnNai : Nai) (magAddr : In6Addr) : Option Nat :=
  ChainTable.get (calcHash pmipCacheBuckets) d.key d.hash ⟨mnNai, magAddr⟩

/-- The type that `pmip_cache_exists` returns. -/
def cachedType (d : Daemon) (mnNai : Nai) (magAddr : In6Addr) : BceType :=
  match d.cached mnNai magAddr with
  | none => .noEntry
  | some bce => (d.heap bce).type

structure HashOk (d : Daemon) : Prop where
  placed : Placed (calcHash pmipCacheBuckets) d.key d.hash
  keys : (d.entries.map d.key).Nodup
  live : ∀ bce ∈ d.entries, d.live bce = true
  below : ∀ bce, d.live bce = true → bce < d.top
  queued : ∀ bce, .bce bce ∈ d.tun.tq.list → d.live bce = true

theorem hashOk_init (tun : Tunnels) (hnp : List MnidHnp)
    (unarmed : ∀ bce, .bce bce ∉ tun.tq.list) : HashOk (init tun hnp) where
  placed := placed_empty
  keys := by simp [entries, init]
  live := by simp [entries, init]
  below := by simp [init]
  queued := fun bce queued => absurd queued (unarmed bce)

theorem walk_subset (d : Daemon) (k : PmipKey) (chain : List Nat) :
    ∀ bce ∈ d.walk k chain, bce ∈ chain := by
  intro bce member
  rcases List.mem_append.mp member with before | found
  · exact (List.takeWhile_sublist _).subset before
  · exact List.mem_of_find?_eq_some (Option.mem_toList.mp found)

theorem mem_entries_of_chain {d : Daemon} {k : PmipKey} {bce : Nat} (member : bce ∈ d.chainOf k) :
    bce ∈ d.entries :=
  (mem_toList d.hash bce).mpr ⟨_, member⟩

theorem pmipCacheGet_eq (d : Daemon) (mnNai : Nai) (magAddr : In6Addr) :
    d.pmipCacheGet mnNai magAddr =
      (d.touch (d.walk ⟨mnNai, magAddr⟩ (d.chainOf ⟨mnNai, magAddr⟩)),
        d.cached mnNai magAddr) := rfl

theorem pmipCacheExists_eq (d : Daemon) (mnNai : Nai) (magAddr : In6Addr) :
    d.pmipCacheExists mnNai magAddr =
      (d.touch (d.walk ⟨mnNai, magAddr⟩ (d.chainOf ⟨mnNai, magAddr⟩)),
        d.cachedType mnNai magAddr) := by
  simp only [pmipCacheExists, cachedType]
  rw [pmipCacheGet_eq]
  cases d.cached mnNai magAddr <;> rfl

theorem HashOk.walk_live {d : Daemon} (ok : HashOk d) (k : PmipKey) :
    ∀ bce ∈ d.walk k (d.chainOf k), d.live bce = true :=
  fun bce member => ok.live bce (mem_entries_of_chain (walk_subset d k _ bce member))

theorem HashOk.get_eq {d : Daemon} (ok : HashOk d) (mnNai : Nai) (magAddr : In6Addr) :
    d.pmipCacheGet mnNai magAddr = (d, d.cached mnNai magAddr) := by
  rw [pmipCacheGet_eq, touch_of_live (ok.walk_live _)]

theorem HashOk.exists_eq {d : Daemon} (ok : HashOk d) (mnNai : Nai) (magAddr : In6Addr) :
    d.pmipCacheExists mnNai magAddr = (d, d.cachedType mnNai magAddr) := by
  rw [pmipCacheExists_eq, touch_of_live (ok.walk_live _)]

theorem cached_some {d : Daemon} {mnNai : Nai} {magAddr : In6Addr} {bce : Nat}
    (found : d.cached mnNai magAddr = some bce) :
    bce ∈ d.entries ∧ d.key bce = ⟨mnNai, magAddr⟩ :=
  get_some found

theorem HashOk.cached_none {d : Daemon} (ok : HashOk d) {mnNai : Nai} {magAddr : In6Addr}
    (missing : d.cached mnNai magAddr = none) :
    ∀ bce ∈ d.entries, d.key bce ≠ ⟨mnNai, magAddr⟩ :=
  get_none ok.placed missing

theorem HashOk.key_injective {d : Daemon} (ok : HashOk d) {p q : Nat} (hp : p ∈ d.entries)
    (hq : q ∈ d.entries) (same : d.key p = d.key q) : p = q :=
  List.inj_on_of_nodup_map ok.keys hp hq same

theorem HashOk.nodup {d : Daemon} (ok : HashOk d) : d.entries.Nodup := List.Nodup.of_map _ ok.keys

theorem HashOk.cached_of_mem {d : Daemon} (ok : HashOk d) {bce : Nat} (member : bce ∈ d.entries) :
    d.cached (d.heap bce).mnNai (d.heap bce).mnServMagAddr = some bce := by
  cases found : d.cached (d.heap bce).mnNai (d.heap bce).mnServMagAddr with
  | none => exact absurd rfl (ok.cached_none found bce member)
  | some other =>
      obtain ⟨inCache, matched⟩ := cached_some found
      rw [ok.key_injective inCache member matched]

theorem HashOk.cached_of_key {d : Daemon} (ok : HashOk d) {mnNai : Nai} {magAddr : In6Addr}
    {bce : Nat} (member : bce ∈ d.entries) (isKey : d.key bce = ⟨mnNai, magAddr⟩) :
    d.cached mnNai magAddr = some bce := by
  have isNai : (d.heap bce).mnNai = mnNai := congrArg PmipKey.mnNai isKey
  have isMag : (d.heap bce).mnServMagAddr = magAddr := congrArg PmipKey.magAddress isKey
  rw [← isNai, ← isMag]
  exact ok.cached_of_mem member

theorem frame_lookup {α : Type} (view : PmipEntry → α) (d : Daemon) (bce : Nat) (k : PmipKey) :
    Frame view bce d (d.touch (d.walk k (d.chainOf k))) :=
  { Frame.refl view bce d with
    freed := fun _ allLive => by
      rw [touch_of_live fun q member =>
        allLive q (mem_entries_of_chain (walk_subset d k _ q member))] }

end Daemon

theorem Frame.entries {α : Type} {view : PmipEntry → α} {bce : Nat} {d d' : Daemon}
    (frame : Frame view bce d d') : d'.entries = d.entries := by
  simp only [Daemon.entries, frame.hash]

namespace Daemon

theorem HashOk.frame {α : Type} {view : PmipEntry → α} {bce : Nat} {d d' : Daemon} (ok : HashOk d)
    (isLive : d.live bce = true) (same : bce ∈ d.entries → d'.key bce = d.key bce)
    (frame : Frame view bce d d') : HashOk d' := by
  have keys : ∀ p ∈ d.entries, d'.key p = d.key p := by
    intro p member
    by_cases here : p = bce
    · exact here ▸ same (here ▸ member)
    · simp only [Daemon.key, frame.others p here]
  constructor
  · intro b p member
    rw [frame.hash] at member
    rw [keys p ((mem_toList d.hash p).mpr ⟨b, member⟩)]
    exact ok.placed b p member
  · rw [frame.entries, List.map_congr_left keys]
    exact ok.keys
  · rw [frame.entries, frame.live]
    exact ok.live
  · rw [frame.live, frame.top]
    exact ok.below
  · intro p queued
    rw [frame.live]
    rcases frame.queued p queued with rfl | before
    · exact isLive
    · exact ok.queued p before

theorem HashOk.frame_owner {bce : Nat} {d d' : Daemon} (ok : HashOk d)
    (isLive : d.live bce = true) (frame : Frame PmipEntry.owner bce d d') : HashOk d' :=
  ok.frame isLive (fun _ => by rw [frame.key]) frame

/-! ## Allocation, insertion and deletion -/

/-- The state after a successful `pmip_cache_alloc`. -/
def allocated (d : Daemon) (type : BceType) : Daemon :=
  { d with
    heap := Function.update d.heap d.top (PmipEntry.blank type)
    live := Function.update d.live d.top true
    top := d.top + 1 }

theorem pmipCacheAlloc_eq (d : Daemon) (env : Env) (type : BceType) :
    d.pmipCacheAlloc env type =
      if env.entryAlloc then (d.allocated type, some d.top) else (d, none) := rfl

theorem HashOk.top_notMem {d : Daemon} (ok : HashOk d) : d.top ∉ d.entries := fun member =>
  Nat.lt_irrefl _ (ok.below _ (ok.live _ member))

theorem HashOk.top_unqueued {d : Daemon} (ok : HashOk d) : .bce d.top ∉ d.tun.tq.list :=
  fun queued => Nat.lt_irrefl _ (ok.below _ (ok.queued _ queued))

theorem HashOk.allocated {d : Daemon} (ok : HashOk d) (type : BceType) :
    HashOk (d.allocated type) := by
  have different : ∀ p, d.live p = true → p ≠ d.top := fun p isLive =>
    Nat.ne_of_lt (ok.below p isLive)
  have keys : ∀ p ∈ d.entries, (d.allocated type).key p = d.key p := by
    intro p member
    simp only [Daemon.key, Daemon.allocated,
      Function.update_of_ne (different p (ok.live p member))]
  have kept : ∀ p, d.live p = true → (d.allocated type).live p = true := by
    intro p isLive
    simpa only [Daemon.allocated, Function.update_of_ne (different p isLive)] using isLive
  constructor
  · intro b p member
    rw [keys p ((mem_toList d.hash p).mpr ⟨b, member⟩)]
    exact ok.placed b p member
  · change (d.entries.map _).Nodup
    rw [List.map_congr_left keys]
    exact ok.keys
  · exact fun p member => kept p (ok.live p member)
  · intro p isLive
    change p < d.top + 1
    by_cases new : p = d.top
    · rw [new]
      exact Nat.lt_succ_self _
    · simp only [Daemon.allocated, Function.update_of_ne new] at isLive
      exact Nat.lt_succ_of_lt (ok.below p isLive)
  · exact fun p queued => kept p (ok.queued p queued)

/-- What `pmip_cache_add` does.  The node is linked when its memory was
allocated and no compared node has the key; nothing tells the caller. -/
structure Added (env : Env) (bce : Nat) (d d' : Daemon) : Prop where
  hash : d'.hash = (tableAdd (calcHash pmipCacheBuckets) d.key d.hash bce env.nodeAlloc).1
  count : d'.count = d.count +
    if (tableAdd (calcHash pmipCacheBuckets) d.key d.hash bce env.nodeAlloc).2 = 0 then 1 else 0
  live : d'.live = d.live
  top : d'.top = d.top
  hnp : d'.hnp = d.hnp
  others : ∀ q, q ≠ bce → d'.heap q = d.heap q
  entry : (d'.heap bce).content = (d.heap bce).content
  slots : ∀ q, q ≠ bce → d'.tun.tq.slot (.bce q) = d.tun.tq.slot (.bce q)
  logged : d.log <:+ d'.log
  freed : d.live bce = true → (∀ q ∈ d.entries, d.live q = true) → d'.freedUses = d.freedUses

theorem Added.queued {env : Env} {bce : Nat} {d d' : Daemon} (added : Added env bce d d') (q : Nat)
    (queued : .bce q ∈ d'.tun.tq.list) : q = bce ∨ .bce q ∈ d.tun.tq.list := by
  by_cases here : q = bce
  · exact Or.inl here
  · rw [TQueue.mem_iff_slot, added.slots q here, ← TQueue.mem_iff_slot] at queued
    exact Or.inr queued

theorem frame_nextBid (d : Daemon) (bce : Nat) :
    Frame PmipEntry.content bce d (d.nextBid bce) := by
  have counted : Frame PmipEntry.content bce d { d with lastBid := d.lastBid + 1 } :=
    { Frame.refl _ bce d with }
  simp only [nextBid]
  exact counted.trans (frame_modify _ _ bce _ rfl)

theorem frame_inserted (conf : Conf) (d : Daemon) (env : Env) (bce : Nat) :
    Frame PmipEntry.content bce d (d.inserted conf env bce) := by
  unfold inserted
  dsimp only
  split
  · exact (frame_modify _ d bce _ rfl).trans (frame_cacheStart _ bce env)
  · exact frame_modify _ d bce _ rfl

theorem tableAdd_failed {d : Daemon} {bce : Nat} {mallocOk : Bool}
    (failed : (tableAdd (calcHash pmipCacheBuckets) d.key d.hash bce mallocOk).2 ≠ 0) :
    (tableAdd (calcHash pmipCacheBuckets) d.key d.hash bce mallocOk).1 = d.hash := by
  simp only [tableAdd] at failed ⊢
  split
  · rename_i isAllocated
    rw [if_pos isAllocated] at failed
    split
    · rfl
    · rename_i absent
      rw [if_neg absent] at failed
      exact absurd rfl failed
  · rfl

theorem pmipcacheInsert_added (d : Daemon) (env : Env) (bce : Nat) :
    Added env bce d (d.pmipcacheInsert env bce).1 := by
  have freed : d.live bce = true → (∀ q ∈ d.entries, d.live q = true) →
      (d.touch (bce :: d.walk (d.key bce) (d.chainOf (d.key bce)).dropLast)).freedUses =
        d.freedUses := by
    intro isLive allLive
    rw [touch_of_live]
    intro q member
    rcases List.mem_cons.mp member with rfl | walked
    · exact isLive
    · have inChain := (List.dropLast_sublist _).subset (walk_subset d _ _ q walked)
      exact allLive q (mem_entries_of_chain inChain)
  have shape : d.pmipcacheInsert env bce =
      if (tableAdd (calcHash pmipCacheBuckets) d.key d.hash bce env.nodeAlloc).2 = 0 then
        ({ d.touch (bce :: d.walk (d.key bce) (d.chainOf (d.key bce)).dropLast) with
            hash := (tableAdd (calcHash pmipCacheBuckets) d.key d.hash bce env.nodeAlloc).1
            count := d.count + 1 }, true)
      else (d.touch (bce :: d.walk (d.key bce) (d.chainOf (d.key bce)).dropLast), false) := rfl
  rw [shape]
  by_cases isAdded : (tableAdd (calcHash pmipCacheBuckets) d.key d.hash bce env.nodeAlloc).2 = 0
  · rw [if_pos isAdded]
    exact {
      hash := rfl
      count := by simp only [if_pos isAdded]
      live := rfl
      top := rfl
      hnp := rfl
      others := fun _ _ => rfl
      entry := rfl
      slots := fun _ _ => rfl
      logged := List.suffix_refl _
      freed := freed }
  · rw [if_neg isAdded]
    exact {
      hash := (tableAdd_failed isAdded).symm
      count := by simp only [if_neg isAdded, touch, Int.add_zero]
      live := rfl
      top := rfl
      hnp := rfl
      others := fun _ _ => rfl
      entry := rfl
      slots := fun _ _ => rfl
      logged := List.suffix_refl _
      freed := freed }

theorem Added.after_frame {env : Env} {bce : Nat} {d d' d'' : Daemon}
    (frame : Frame PmipEntry.content bce d d') (added : Added env bce d' d'') :
    Added env bce d d'' where
  hash := by rw [added.hash, frame.binding.owner.key, frame.hash]
  count := by rw [added.count, frame.binding.owner.key, frame.hash, frame.count]
  live := added.live.trans frame.live
  top := added.top.trans frame.top
  hnp := added.hnp.trans frame.hnp
  others := fun q other => (added.others q other).trans (frame.others q other)
  entry := added.entry.trans frame.entry
  slots := fun q other => (added.slots q other).trans (frame.slots q other)
  logged := frame.logged.trans added.logged
  freed := by
    intro isLive allLive
    rw [added.freed (frame.live ▸ isLive) (by rw [frame.entries, frame.live]; exact allLive),
      frame.freed isLive allLive]

theorem Added.mem_entries {env : Env} {bce : Nat} {d d' : Daemon} (added : Added env bce d d') :
    ∀ p ∈ d'.entries, p = bce ∨ p ∈ d.entries := by
  intro p member
  rw [entries, added.hash] at member
  simp only [tableAdd] at member
  split at member
  · split at member
    · exact Or.inr member
    · exact List.mem_cons.mp ((toList_append_perm _ _ _).mem_iff.mp member)
  · exact Or.inr member

theorem Added.then_frame {env : Env} {bce : Nat} {d d' d'' : Daemon} (added : Added env bce d d')
    (frame : Frame PmipEntry.content bce d' d'') : Added env bce d d'' where
  hash := frame.hash.trans added.hash
  count := frame.count.trans added.count
  live := frame.live.trans added.live
  top := frame.top.trans added.top
  hnp := frame.hnp.trans added.hnp
  others := fun q other => (frame.others q other).trans (added.others q other)
  entry := frame.entry.trans added.entry
  slots := fun q other => (frame.slots q other).trans (added.slots q other)
  logged := added.logged.trans frame.logged
  freed := by
    intro isLive allLive
    have stillLive : ∀ q ∈ d'.entries, d'.live q = true := by
      intro q member
      rw [added.live]
      rcases added.mem_entries q member with rfl | before
      · exact isLive
      · exact allLive q before
    rw [frame.freed (added.live ▸ isLive) stillLive, added.freed isLive allLive]

theorem pmipCacheAdd_added (conf : Conf) (d : Daemon) (env : Env) (bce : Nat) :
    Added env bce d (d.pmipCacheAdd conf env bce) := by
  have added := Added.after_frame (frame_nextBid d bce)
    (pmipcacheInsert_added (d.nextBid bce) env bce)
  simp only [pmipCacheAdd]
  cases result : (d.nextBid bce).pmipcacheInsert env bce with
  | mk next isInserted =>
      rw [result] at added
      cases isInserted with
      | false => exact added
      | true => exact added.then_frame (frame_inserted conf next env bce)

theorem cacheInsert_keeps (d : Daemon) (env : Env) (bce : Nat) :
    (d.pmipcacheInsert env bce).1.heap = d.heap ∧ (d.pmipcacheInsert env bce).1.tun = d.tun ∧
      (d.pmipcacheInsert env bce).1.log = d.log ∧
      (d.pmipcacheInsert env bce).1.clients = d.clients := by
  unfold pmipcacheInsert
  dsimp only
  split
  · exact ⟨rfl, rfl, rfl, rfl⟩
  · exact ⟨rfl, rfl, rfl, rfl⟩

/-- A relation that every part of `pmip_cache_add` keeps is kept by all of it. -/
theorem pmipCacheAdd_relates (relation : Daemon → Daemon → Prop)
    (trans : ∀ {first second third}, relation first second → relation second third →
      relation first third) {env : Env} {bce : Nat}
    (numbered : ∀ d, relation d (d.nextBid bce))
    (linked : ∀ d, relation d (d.pmipcacheInsert env bce).1)
    (written : ∀ d write, relation d (d.modify bce write))
    (started : ∀ d, relation d (d.pmipCacheStart env bce)) (conf : Conf) (d : Daemon) :
    relation d (d.pmipCacheAdd conf env bce) := by
  have inserts := trans (numbered d) (linked (d.nextBid bce))
  simp only [pmipCacheAdd]
  cases result : (d.nextBid bce).pmipcacheInsert env bce with
  | mk next isInserted =>
      rw [result] at inserts
      cases isInserted with
      | false => exact inserts
      | true =>
          have counted := trans inserts
            (written next fun e => { e with nRetsCounter := conf.maxMessageRetransmissions })
          simp only [inserted]
          split
          · exact trans counted (started _)
          · exact counted

theorem pmipCacheAdd_keeps (conf : Conf) (d : Daemon) (env : Env) (bce : Nat) :
    (d.pmipCacheAdd conf env bce).log = d.log ∧ (d.pmipCacheAdd conf env bce).clients = d.clients := by
  let relation : Daemon → Daemon → Prop := fun d d' => d'.log = d.log ∧ d'.clients = d.clients
  have trans : ∀ {first second third}, relation first second → relation second third →
      relation first third := fun before after =>
    ⟨after.1.trans before.1, after.2.trans before.2⟩
  have linked : ∀ d : Daemon, relation d (d.pmipcacheInsert env bce).1 := fun d =>
    (cacheInsert_keeps d env bce).2.2
  exact pmipCacheAdd_relates relation trans (fun _ => ⟨rfl, rfl⟩) linked (fun _ _ => ⟨rfl, rfl⟩)
    (fun _ => ⟨rfl, rfl⟩) conf d

/-- The timer of an entry that is not registered yet is left as it is. -/
theorem pmipCacheAdd_unstarted (conf : Conf) {d : Daemon} (env : Env) {bce : Nat}
    (unregistered : (d.heap bce).type ≠ .pmip) : (d.pmipCacheAdd conf env bce).tun = d.tun := by
  obtain ⟨heap, tun, _, _⟩ := cacheInsert_keeps (d.nextBid bce) env bce
  simp only [pmipCacheAdd]
  split
  · rename_i shape
    rw [shape] at tun
    exact tun
  · rename_i shape
    rw [shape] at heap tun
    simp only [inserted]
    dsimp only at heap ⊢
    rw [if_neg]
    · exact tun
    · simpa [modify, heap, nextBid] using unregistered

theorem Added.key {env : Env} {bce : Nat} {d d' : Daemon} (added : Added env bce d d') :
    d'.key = d.key := by
  funext q
  by_cases here : q = bce
  · subst here
    have nai := congrArg PmipEntry.mnNai added.entry
    have mag := congrArg PmipEntry.mnServMagAddr added.entry
    simp only [PmipEntry.content] at nai mag
    simp only [Daemon.key, PmipEntry.key, nai, mag]
  · simp only [Daemon.key, added.others q here]

theorem Added.entries_perm {env : Env} {bce : Nat} {d d' : Daemon} (added : Added env bce d d')
    (new : d.key bce ∉ d.entries.map d.key) (mallocOk : env.nodeAlloc = true) :
    d'.entries.Perm (bce :: d.entries) ∧ d'.count = d.count + 1 := by
  have linked : tableAdd (calcHash pmipCacheBuckets) d.key d.hash bce true = _ := tableAdd_new new
  rw [← mallocOk] at linked
  constructor
  · rw [entries, added.hash, linked]
    exact toList_append_perm _ _ _
  · rw [added.count, linked, if_pos rfl]

theorem HashOk.added_of_keys {env : Env} {bce : Nat} {d d' : Daemon} (ok : HashOk d)
    (isLive : d.live bce = true) (added : Added env bce d d')
    (keys : (d'.entries.map d'.key).Nodup) : HashOk d' := by
  refine { keys := keys, placed := ?_, live := ?_, below := ?_, queued := ?_ }
  · rw [added.key, added.hash]
    simp only [tableAdd]
    split
    · split
      · exact ok.placed
      · exact placed_append ok.placed bce
    · exact ok.placed
  · intro p member
    rw [added.live]
    rcases added.mem_entries p member with rfl | before
    · exact isLive
    · exact ok.live p before
  · rw [added.live, added.top]
    exact ok.below
  · intro p queued
    rw [added.live]
    rcases added.queued p queued with rfl | before
    · exact isLive
    · exact ok.queued p before

theorem HashOk.unlinked {env : Env} {bce : Nat} {d d' : Daemon} (ok : HashOk d)
    (isLive : d.live bce = true) (added : Added env bce d d') (same : d'.hash = d.hash) :
    HashOk d' := by
  apply ok.added_of_keys isLive added
  rw [added.key, entries, same]
  exact ok.keys

theorem HashOk.added {env : Env} {bce : Nat} {d d' : Daemon} (ok : HashOk d)
    (isLive : d.live bce = true)
    (new : env.nodeAlloc = true → d.key bce ∉ d.entries.map d.key)
    (added : Added env bce d d') : HashOk d' := by
  cases mallocOk : env.nodeAlloc with
  | true =>
      apply ok.added_of_keys isLive added
      rw [added.key]
      refine ((added.entries_perm (new mallocOk) mallocOk).1.map d.key).nodup_iff.mpr ?_
      exact List.nodup_cons.mpr ⟨new mallocOk, ok.keys⟩
  | false =>
      apply ok.unlinked isLive added
      rw [added.hash, mallocOk]
      rfl

theorem delete_key (d : Daemon) (bce : Nat) : (d.pmipBceDelete bce).key = d.key := rfl

theorem delete_heap (d : Daemon) (bce : Nat) : (d.pmipBceDelete bce).heap = d.heap := rfl

theorem delete_hash (d : Daemon) (bce : Nat) : (d.pmipBceDelete bce).hash =
    erase (calcHash pmipCacheBuckets) d.key d.hash (d.key bce) := rfl

theorem delete_live (d : Daemon) (bce : Nat) :
    (d.pmipBceDelete bce).live = Function.update d.live bce false := rfl

theorem delete_queued (d : Daemon) (bce q : Nat) :
    .bce q ∈ (d.pmipBceDelete bce).tun.tq.list ↔ .bce q ∈ d.tun.tq.list ∧ q ≠ bce := by
  have shape : (d.pmipBceDelete bce).tun.tq = d.tun.tq.delTask (.bce bce) := rfl
  rw [shape, TQueue.mem_delTask]
  simp

theorem delete_entries_subset (d : Daemon) (bce : Nat) :
    ∀ p ∈ (d.pmipBceDelete bce).entries, p ∈ d.entries := by
  intro p member
  obtain ⟨b, inChain⟩ := (mem_toList _ p).mp member
  exact (mem_toList d.hash p).mpr ⟨b, mem_erase_of_mem inChain⟩

theorem HashOk.delete_entries {d : Daemon} (ok : HashOk d) {bce : Nat} (member : bce ∈ d.entries) :
    d.entries.Perm (bce :: (d.pmipBceDelete bce).entries) :=
  toList_erase_perm (ok.cached_of_mem member)

theorem HashOk.delete_notMem {d : Daemon} (ok : HashOk d) {bce : Nat} :
    bce ∉ (d.pmipBceDelete bce).entries := by
  intro remains
  have member := delete_entries_subset d bce bce remains
  have nodup := (ok.delete_entries member).nodup_iff.mp ok.nodup
  exact (List.nodup_cons.mp nodup).1 remains

theorem HashOk.delete_sublist {d : Daemon} (ok : HashOk d) (bce : Nat) :
    (d.pmipBceDelete bce).entries.Sublist d.entries := by
  rw [entries, delete_hash, toList_erase ok.placed]
  exact List.eraseP_sublist

theorem HashOk.delete {d : Daemon} (ok : HashOk d) (bce : Nat) : HashOk (d.pmipBceDelete bce) := by
  constructor
  · rw [delete_key, delete_hash]
    exact placed_erase ok.placed _
  · exact ((ok.delete_sublist bce).map d.key).nodup ok.keys
  · intro p member
    have different : p ≠ bce := by
      intro same
      subst same
      exact ok.delete_notMem member
    rw [delete_live, Function.update_of_ne different]
    exact ok.live p (delete_entries_subset d bce p member)
  · intro p isLive
    rw [delete_live] at isLive
    by_cases here : p = bce
    · subst here
      simp at isLive
    · rw [Function.update_of_ne here] at isLive
      exact ok.below p isLive
  · intro p queued
    obtain ⟨before, different⟩ := (delete_queued d bce p).mp queued
    rw [delete_live, Function.update_of_ne different]
    exact ok.queued p before

theorem HashOk.delete_freed {d : Daemon} (ok : HashOk d) {bce : Nat} (isLive : d.live bce = true) :
    (d.pmipBceDelete bce).freedUses = d.freedUses := by
  have stopped : d.delTask bce =
      { d with tun := { d.tun with tq := d.tun.tq.delTask (.bce bce) } } := by
    simp only [delTask]
    rw [touch_of_live (by simpa using isLive)]
  have walked : (d.delTask bce).touch (d.walk (d.key bce) (d.chainOf (d.key bce))) =
      d.delTask bce := by
    rw [stopped]
    exact touch_of_live (ok.walk_live _)
  have shape : (d.pmipBceDelete bce).freedUses =
      ((d.delTask bce).touch (d.walk (d.key bce) (d.chainOf (d.key bce)))).freedUses := rfl
  rw [shape, walked, stopped]

/-! ## Lookups of the state machines and timers -/

theorem cached_touch (d : Daemon) (used : List Nat) : (d.touch used).cached = d.cached := rfl

theorem getEntry_eq (d : Daemon) (mnNai : Nai) (magAddr : In6Addr) :
    d.getEntry mnNai magAddr =
      match d.cached mnNai magAddr with
      | none => .error (.nullEntry, d.touch (d.walk ⟨mnNai, magAddr⟩ (d.chainOf ⟨mnNai, magAddr⟩)))
      | some bce =>
          .ok (d.touch (d.walk ⟨mnNai, magAddr⟩ (d.chainOf ⟨mnNai, magAddr⟩)), bce) := by
  simp only [getEntry]
  rw [pmipCacheGet_eq]
  cases d.cached mnNai magAddr <;> rfl

theorem getEntry_ok {d d' : Daemon} {mnNai : Nai} {magAddr : In6Addr} {bce : Nat}
    (got : d.getEntry mnNai magAddr = .ok (d', bce)) :
    d.cached mnNai magAddr = some bce ∧
      d' = d.touch (d.walk ⟨mnNai, magAddr⟩ (d.chainOf ⟨mnNai, magAddr⟩)) := by
  rw [getEntry_eq] at got
  cases found : d.cached mnNai magAddr with
  | none => simp [found] at got
  | some p =>
      simp only [found] at got
      cases got
      exact ⟨rfl, rfl⟩

theorem cachedType_some {d : Daemon} {mnNai : Nai} {magAddr : In6Addr} {type : BceType}
    (isType : d.cachedType mnNai magAddr = type) {bce : Nat}
    (found : d.cached mnNai magAddr = some bce) : (d.heap bce).type = type := by
  rw [cachedType, found] at isType
  exact isType

def popped (d : Daemon) (element : TqElem) : Daemon :=
  { d with tun := { d.tun with tq := d.tun.tq.delTask element } }

theorem frame_popped {α : Type} (view : PmipEntry → α) (d : Daemon) (bce : Nat) :
    Frame view bce d (d.popped (.bce bce)) :=
  { Frame.refl view bce d with
    slots := fun q other => TQueue.slot_delTask_of_ne _ (by simpa using other) }

def retransmitted (conf : Conf) (d : Daemon) (env : Env) (bce : Nat) (pbu : Pbu) : Daemon :=
  let d' := { d with sequence := d.sequence + 1 }.modify bce fun e =>
    { e with nRetsCounter := e.nRetsCounter - 1, seqnoOut := UInt16.ofNat d.sequence }
  let d' := d'.modify bce fun e => { e with mhVec := some pbu }
  let d' := d'.emit (.sendPbu conf.ourAddress conf.lmaAddress pbu (d.heap bce).link)
  d'.startRetransmission conf env bce

theorem retransPbu_cases {conf : Conf} {d d' : Daemon} {env : Env} {bce : Nat}
    (taken : d.pmipTimerRetransPbuHandler conf env bce = .ok d') :
    ((d.heap bce).nRetsCounter = 0 ∧ d' = d.pmipBceDelete bce) ∨
      ∃ pbu, (d.heap bce).mhVec = some pbu ∧ Frame PmipEntry.binding bce d d' ∧
        d' = d.retransmitted conf env bce { pbu with seqno := UInt16.ofNat d.sequence } := by
  unfold pmipTimerRetransPbuHandler at taken
  dsimp only at taken
  split at taken
  · rename_i silent
    cases taken
    exact Or.inl ⟨silent, rfl⟩
  · split at taken
    · cases taken
    · rename_i pbu kept
      cases taken
      have counted : Frame PmipEntry.binding bce d { d with sequence := d.sequence + 1 } :=
        { Frame.refl _ bce d with }
      refine Or.inr ⟨pbu, kept, ?_, rfl⟩
      exact (((counted.trans (frame_modify _ _ bce _ rfl)).trans
        (frame_modify _ _ bce _ rfl)).trans (frame_emit _ _ bce _)).trans
        (frame_startRetransmission conf _ env bce)

end Daemon

end OaiPmip
