import OaiPmip.HomeRegOk

/-!
# Runs of the home agent

Workers are started by updates and wait for duplicate address detection, bindings
expire, and the other users of the cache and of the tunnels go on with their own, in
any order.  Each step keeps what the agent keeps, and says of its acknowledgements
only what is in the cache.
-/

set_option autoImplicit false

namespace OaiPmip.HomeReg

open OaiPmip.Cn OaiPmip.Ha OaiPmip.HaLifetimes OaiPmip.PrefixLists OaiPmip.TunnelCtl
open OaiPmip.Runs

/-- Every worker that waits has its entry, and every entry that is being made its
worker. -/
structure Waits (s : HomeAgent) : Prop where
  entries : ∀ w ∈ s.waiting, ∃ b ∈ s.bc, b.key = w.key ∧ b.type = .dad ∧ b.coa = w.args.bindCoa
  workers : ∀ b ∈ s.bc, b.type = .dad → ∃ w ∈ s.waiting, w.key = b.key
  nodup : (s.waiting.map DadWait.key).Nodup

structure HomeOk (leads orderly : Prop) (s : HomeAgent) : Prop where
  balanced : Balanced leads orderly s s.bc none
  waits : Waits s

/-- What a step leaves. -/
structure Next (leads orderly : Prop) (s s' : HomeAgent) : Prop where
  ok : HomeOk leads orderly s'
  acked : ∃ acks, s'.acks = acks ++ s.acks ∧ ∀ ack ∈ acks, Told s' ack

section Waiting
variable {leads orderly : Prop} {conf : HaRegConf} {a : Answers} {s s' s₁ : HomeAgent}
  {b : Bcentry} {w : DadWait} {key : BcKey} {args : HaRecvBuArgs}

theorem bcacheGet_unique (balanced : Balanced leads orderly s s.bc none) (member : b ∈ s.bc) :
    s.bcacheGet b.key = some b := by
  cases found : s.bcacheGet b.key with
  | none => exact absurd rfl (bcacheGet_none found b member)
  | some c =>
      obtain ⟨here, same⟩ := bcacheGet_some found
      rw [List.inj_on_of_nodup_map balanced.nodup here member same]

theorem Waits.settle (waits : Waits s) (done : Done leads orderly s₁ s' key)
    (cache : s₁.bc = s.bc) (left_ : s₁.waiting.Sublist s.waiting)
    (gone : ∀ w ∈ s₁.waiting, w.key ≠ key)
    (kept : ∀ w ∈ s.waiting, w.key ≠ key → w ∈ s₁.waiting) : Waits s' where
  entries := by
    intro w member
    rw [done.waiting] at member
    obtain ⟨b, inCache, isKey, is⟩ := waits.entries w (left_.subset member)
    have other : b ∈ s₁.without key := mem_without.mpr ⟨cache ▸ inCache, isKey ▸ gone w member⟩
    rw [← done.others] at other
    exact ⟨b, (mem_without.mp other).1, isKey, is⟩
  workers := by
    intro b inCache dad
    have apart : b.key ≠ key := fun isKey => done.settled b inCache isKey dad
    have other : b ∈ s'.without key := mem_without.mpr ⟨inCache, apart⟩
    rw [done.others] at other
    obtain ⟨w, member, isKey⟩ := waits.workers b (cache ▸ (mem_without.mp other).1) dad
    refine ⟨w, ?_, isKey⟩
    rw [done.waiting]
    exact kept w member (isKey ▸ apart)
  nodup := by
    rw [done.waiting]
    exact waits.nodup.sublist (left_.map _)

theorem Done.next (done : Done leads orderly s s' key) (waits : Waits s)
    (free : ∀ w ∈ s.waiting, w.key ≠ key) : Next leads orderly s s' :=
  ⟨⟨done.balanced, waits.settle done rfl (List.Sublist.refl _) free fun _ member _ => member⟩,
    done.acked⟩

theorem HomeOk.stays (ok : HomeOk leads orderly s) : Next leads orderly s s :=
  ⟨ok, [], rfl, fun _ member => absurd member List.not_mem_nil⟩

theorem HomeOk.sendBaErr (ok : HomeOk leads orderly s) {status : Int} {seqno : UInt16}
    (told : Told s (.baErr args.key status seqno)) :
    Next leads orderly s (s.sendBaErr args status seqno) := by
  rw [HomeAgent.sendBaErr]
  split
  · exact ok.stays
  · refine ⟨⟨ok.balanced.frame rfl rfl rfl rfl, ok.waits.entries, ok.waits.workers,
      ok.waits.nodup⟩, [_], rfl, ?_⟩
    intro ack member
    rw [List.mem_singleton.mp member]
    exact told

theorem HomeOk.free (ok : HomeOk leads orderly s)
    (notDad : ∀ b, s.bcacheGet key = some b → b.type ≠ .dad) : ∀ w ∈ s.waiting, w.key ≠ key := by
  rintro w member rfl
  obtain ⟨b, inCache, isKey, dad, -⟩ := ok.waits.entries w member
  exact notDad b (isKey ▸ bcacheGet_unique ok.balanced inCache) dad

theorem Balanced.new (balanced : Balanced leads orderly s s.bc none)
    (absent : ∀ c ∈ s.bc, c.key ≠ b.key) (kind : Kind none b) (notHome : b.type ≠ .homereg) :
    Balanced leads orderly (s.put b) (s.put b).bc none := by
  obtain ⟨noTunnel, noCleanup⟩ := kind.idle notHome (Option.some_ne_none _).symm
  have noMnps := kind.plain (Option.some_ne_none _).symm noCleanup
  have notLinked : ¬ 0 < b.tunnel := by
    rw [noTunnel]
    exact lt_irrefl 0
  have cache : (s.put b).bc = b :: s.bc := by
    rw [HomeAgent.put, without_of_absent absent]
  rw [cache]
  refine ⟨?_, ?_, ?_, ?_, ⟨balanced.kernel.routed.new notHome,
    fun ordered => (balanced.kernel.mnps ordered).new notLinked noMnps⟩, ?_⟩
  · rw [List.map_cons, List.nodup_cons]
    refine ⟨?_, balanced.nodup⟩
    intro inKeys
    obtain ⟨c, member, same⟩ := List.mem_map.mp inKeys
    exact absent c member same
  · intro c member
    rcases List.mem_cons.mp member with rfl | inCache
    · exact kind
    · exact balanced.kinds c inCache
  · rw [refs_cons_none notLinked]
    exact balanced.counted
  · intro c member positive
    rcases List.mem_cons.mp member with rfl | inCache
    · exact absurd positive notLinked
    · exact balanced.ends c inCache positive
  · intro key started
    obtain ⟨c, member, is⟩ := balanced.mpa key started
    exact ⟨c, List.mem_cons_of_mem _ member, is⟩

theorem Done.put {b' : Bcentry} (balanced : Balanced leads orderly s (b' :: s.without b'.key) none)
    (notDad : b'.type ≠ .dad) : Done leads orderly s (s.put b') b'.key := by
  refine ⟨balanced.frame rfl rfl rfl rfl, rfl, put_without s b', ?_, [], rfl,
    fun _ member => absurd member List.not_mem_nil⟩
  intro c member isKey
  rcases List.mem_cons.mp member with rfl | other
  · exact notDad
  · exact absurd isKey (mem_without.mp other).2

theorem Balanced.bceDelete (balanced : Balanced leads orderly s s.bc none)
    (found : s.bcacheGet key = some b) (minlft : Bool) :
    ∃ s', s.bceDelete b minlft = .ok s' ∧ Done leads orderly s s' key := by
  obtain ⟨member, rfl⟩ := bcacheGet_some found
  have kind := balanced.kinds b member
  by_cases stays : (b.type = .cached ∨ b.type = .cacheDying) ∧ minlft = true
  · have notHome : b.type ≠ .homereg := by
      intro home
      rw [home] at stays
      rcases stays.1 with cached | dying
      · cases cached
      · cases dying
    have noCleanup := (kind.idle notHome (Option.some_ne_none _).symm).2
    have retyped := (balanced.take found).rewrite notHome { b with type := .nonceBlock } rfl rfl
      rfl rfl rfl (fun same => by cases same) (fun same => by cases same)
      fun either => either.elim (fun same => by cases same) fun same => by cases same
    have notCleans : ¬ b.cleanup = true := by
      rw [noCleanup]
      exact Bool.false_ne_true
    simp only [HomeAgent.bceDelete, if_neg notCleans, ok_bind, if_pos stays]
    exact ⟨_, rfl, Done.put retyped fun same => by cases same⟩
  · have tunnelled : 0 < b.tunnel → b.cleanup = true := by
      intro linked
      by_cases home : b.type = .homereg
      · exact (kind.home home).2
      · rw [(kind.idle home (Option.some_ne_none _).symm).1] at linked
        exact absurd linked (lt_irrefl 0)
    obtain ⟨s', deleted, gone⟩ := (balanced.inHand found).bceDelete tunnelled stays
    exact ⟨s', deleted, gone.done⟩

theorem bcacheDelete_idle (idle : ∀ b, s.bcacheGet key = some b → b.cleanup = false) :
    s.bcacheDelete key = .ok { s with bc := s.without key } := by
  simp only [HomeAgent.bcacheDelete]
  cases found : s.bcacheGet key with
  | none => rw [without_of_absent (bcacheGet_none found)]
  | some b =>
      obtain ⟨-, rfl⟩ := bcacheGet_some found
      simp only [HomeAgent.bceDelete, idle b found, Bool.false_eq_true, and_false, if_false,
        ok_bind]

end Waiting

/-- Tunnels that are created have new indices, and `tunnel_mod` has memory. -/
def Answers.Sound (s : HomeAgent) (a : Answers) : Prop :=
  a.tunnel.node = true ∧ ∀ i ∈ a.tunnel.created.ifindex, NewIndex s.ctl i

/-- Besides, no update without the H flag arrives for a home registration or for a
binding that is being made, and no destination unreachable message deletes the latter. -/
def Event.Sound (s : HomeAgent) : Event → Prop
  | .haRecvBu _ a => a.Sound s
  | .dadDone _ _ a => a.Sound s
  | .cnRecvBu bu _ => ∀ b, s.bcacheGet bu.key = some b → b.type ≠ .homereg ∧ b.type ≠ .dad
  | .cnRecvDstUnreach key _ => ∀ b, s.bcacheGet key = some b → b.type = .dad →
      b.unreach < HomeAgent.icmpErrorPersistentThreshold
  | .otherAdd env _ _ _ => ∀ i ∈ env.ifindex, NewIndex s.ctl i
  | _ => True

def Event.Leads (s : HomeAgent) : Event → Prop
  | .haRecvBu args _ => ∀ b, s.bcacheGet args.key = some b → b.type = .homereg →
      Movable s.ctl b.tunnel b.ourAddr args.bindCoa
  | _ => True

/-- Nothing is refused, the prefixes of an update are its own, and the link-local
address stays under protection. -/
structure OrderlyUpdate (conf : HaRegConf) (s : HomeAgent) (args : HaRecvBuArgs) (a : Answers) :
    Prop where
  follows : Follows conf a (args.mnps conf) (s.without args.key)
  llocal : ∀ b, s.bcacheGet args.key = some b → b.flags.llocal = true → args.llocal = true

def Event.Orderly (conf : HaRegConf) (s : HomeAgent) : Event → Prop
  | .haRecvBu args a => OrderlyUpdate conf s args a
  | .dadDone key _ a => ∀ w ∈ s.waiting, w.key = key → OrderlyUpdate conf s w.args a
  | _ => True

/-! ## The worker -/

theorem link_positive {conf : HaConf} {bu : HomeBu} {now : Timespec} {granted : Int × Timespec}
    (linked : ∀ i ∈ conf.interfaces, 0 < i.ifindex) (ok : haGrant conf bu now = .ok granted) :
    0 < (mpdPrefixCheck conf.interfaces bu.src bu.dst bu.lft 0 false now).ifindex := by
  have passes : ¬ ((mpdPrefixCheck conf.interfaces bu.src bu.dst bu.lft 0 false now).res < 0 ∧
      (mpdPrefixCheck conf.interfaces bu.src bu.dst bu.lft 0 false now).ifindex = 0) := by
    rintro ⟨failed, nowhere⟩
    simp only [haGrant] at ok
    rw [if_pos ⟨failed, Or.inr (Or.inl nowhere)⟩] at ok
    cases ok
  cases here : haGetIfByAddr conf.interfaces bu.src with
  | none => simp [mpdPrefixCheck, here] at passes
  | some i =>
      have member : i ∈ conf.interfaces := List.mem_of_find?_eq_some here
      cases found : haPrefixListGet i.prefixList bu.dst 0 with
      | none => simp [mpdPrefixCheck, here, found] at passes
      | some p =>
          simp only [mpdPrefixCheck, here, found]
          exact linked i member

section Steps
variable {leads orderly : Prop} {conf : HaRegConf} {a : Answers} {s s' s₁ : HomeAgent}
  {b : Bcentry} {w : DadWait} {key : BcKey} {args : HaRecvBuArgs} {link : Int}

/-- What passes the checks in front is a binding that is set up, or one that only kept
its nonce. -/
theorem cachedStatus_none {bu : HomeBu} {flags : HaBuFlags}
    (passes : cachedStatus bu flags (some (HomeAgent.cachedBce args b)) = none) :
    b.type = .nonceBlock ∨ b.flags.home = args.bu.isHome ∧ b.type ≠ .dad := by
  simp only [cachedStatus] at passes
  split at passes
  · split at passes
    · cases passes
    · rename_i sameFlags
      split at passes
      · cases passes
      · rename_i notDad
        refine Or.inr ⟨?_, notDad⟩
        simp only [HomeAgent.cachedBce, Bool.or_eq_true, bne_iff_ne, not_or, ne_eq,
          not_not] at sameFlags
        exact sameFlags.1
  · rename_i blocked
    exact Or.inl (not_not.mp blocked)

theorem Balanced.told_refused (balanced : Balanced leads orderly s s.bc none) {status : Int}
    (refused : cachedStatus args.bu args.flags
      ((s.bcacheGet args.key).map (HomeAgent.cachedBce args)) = some status) (notBusy : ¬ status = -16) :
    Told s (.baErr args.key status (HomeAgent.refusedSeqno args (s.bcacheGet args.key) status)) := by
  intro b member isKey
  have found := bcacheGet_unique balanced member
  rw [isKey] at found
  rw [found, Option.map_some] at refused
  simp only [cachedStatus] at refused
  split at refused
  · right
    split at refused
    · exact Or.inl (Option.some.inj refused).symm
    · split at refused
      · exact absurd (Option.some.inj refused).symm notBusy
      · split at refused
        · obtain rfl := Option.some.inj refused
          right
          simp only [found, HomeAgent.refusedSeqno, if_true, and_self]
        · cases refused
  · rename_i isBlocked
    exact Or.inl (not_not.mp isBlocked)

theorem newBce_kind (args : HaRecvBuArgs) (seqno : UInt16) (positive : 0 < link) :
    Kind none (HomeAgent.newBce args seqno link) := by
  refine ⟨?_, fun _ => positive, ?_, fun _ _ => ⟨rfl, rfl⟩, fun _ _ => rfl, ?_⟩
  · intro home
    cases home
  · intro cleans
    cases cleans
  · rintro (cached | dying)
    · cases cached
    · cases dying

theorem startDad_ok (waits : Waits s) (deleted : Deleted leads orderly s s₁ w.key)
    (free : ∀ v ∈ s.waiting, v.key ≠ w.key) (positive : 0 < link)
    (fresh : ∀ i ∈ a.tunnel.created.ifindex, NewIndex s₁.ctl i)
    (follows : orderly → Follows conf a (w.args.mnps conf) (s.without w.key)) :
    ∃ s', HomeAgent.startDad conf s₁ w link a = .ok s' ∧ Next leads orderly s s' := by
  simp only [HomeAgent.startDad]
  split
  · exact ⟨_, rfl, (deleted.sendBaErr rfl _ _).next waits free⟩
  · let bce := HomeAgent.newBce w.args w.seqno link
    have isKey : bce.key = w.key := rfl
    have kind : Kind none bce := newBce_kind w.args w.seqno positive
    have added : Balanced leads orderly (s₁.put bce) (s₁.put bce).bc none :=
      deleted.balanced.new deleted.absent kind fun home => by cases home
    have others : (s₁.put bce).without w.key = s.without w.key := by
      rw [← isKey, put_without, isKey]
      exact without_without deleted.cache
    split
    · obtain ⟨s', registered, done⟩ := register_ok added (bcacheGet_put s₁ bce) rfl rfl rfl fresh
        (fun ordered => by rw [isKey, others]; exact follows ordered)
      exact ⟨s', registered, (done.since others deleted.waiting deleted.acks).next waits free⟩
    · refine ⟨_, rfl, ⟨added.frame rfl rfl rfl rfl, ?_, ?_, ?_⟩, [], deleted.acks,
        fun _ member => absurd member List.not_mem_nil⟩
      · intro v member
        rcases List.mem_cons.mp member with rfl | earlier
        · exact ⟨bce, List.mem_cons_self, rfl, rfl, rfl⟩
        · have before : v ∈ s.waiting := deleted.waiting ▸ earlier
          obtain ⟨b, inCache, sameKey, is⟩ := waits.entries v before
          have other : b ∈ s.without w.key := mem_without.mpr ⟨inCache, sameKey ▸ free v before⟩
          rw [← others] at other
          exact ⟨b, (mem_without.mp other).1, sameKey, is⟩
      · intro b inCache dad
        rcases List.mem_cons.mp inCache with rfl | other
        · exact ⟨w, List.mem_cons_self, rfl⟩
        · have before := (mem_without.mp other).1
          rw [deleted.cache] at before
          obtain ⟨v, member, sameKey⟩ := waits.workers b (mem_without.mp before).1 dad
          exact ⟨v, List.mem_cons_of_mem _ (deleted.waiting ▸ member), sameKey⟩
      · change (w.key :: s₁.waiting.map DadWait.key).Nodup
        rw [deleted.waiting]
        refine List.nodup_cons.mpr ⟨?_, waits.nodup⟩
        intro inKeys
        obtain ⟨v, member, sameKey⟩ := List.mem_map.mp inKeys
        exact free v member sameKey

/-- Where the worker that only looks at lifetimes ends with a binding, this one goes on to
its tunnel with the same status and lifetime. -/
theorem haRecvBuWorker_bound {setUp : Int → Timespec → Option Int} {status : Int}
    {lft : Timespec} {acknowledged : Option UInt16}
    (bound : HaLifetimes.haRecvBuWorker conf.toHaConf args.bu args.flags
      ((s.bcacheGet args.key).map (HomeAgent.cachedBce args)) a.now setUp =
        .bound status lft acknowledged) :
    ∃ seqno, (∃ b, s.bcacheGet args.key = some b ∧ s.haRecvBuWorker conf args a =
        HomeAgent.renew conf s b ⟨args, status, lft, seqno⟩ a) ∨
      ∃ link, s.haRecvBuWorker conf args a = (s.bcacheDelete args.key >>= fun s =>
        HomeAgent.startDad conf s ⟨args, status, lft, seqno⟩ link a) := by
  simp only [HaLifetimes.haRecvBuWorker] at bound
  split at bound
  · cases bound
  · rename_i passes
    split at bound
    · cases bound
    · rename_i granted
      split at bound
      · cases bound
      · cases bound
        simp only [HomeAgent.haRecvBuWorker, passes, granted]
        cases kept : (s.bcacheGet args.key).filter fun bce => bce.type ≠ .nonceBlock with
        | some b => exact ⟨_, Or.inl ⟨b, (Option.filter_eq_some_iff.mp kept).1, rfl⟩⟩
        | none => exact ⟨_, Or.inr ⟨_, rfl⟩⟩

theorem haRecvBuWorker_ok (linked : ∀ i ∈ conf.interfaces, 0 < i.ifindex)
    (ok : HomeOk leads orderly s) (sound : a.Sound s)
    (movable : leads → (Event.haRecvBu args a).Leads s)
    (ordered : orderly → OrderlyUpdate conf s args a) :
    ∃ s', s.haRecvBuWorker conf args a = .ok s' ∧ Next leads orderly s s' := by
  simp only [HomeAgent.haRecvBuWorker]
  cases checked : cachedStatus args.bu args.flags
      ((s.bcacheGet args.key).map (HomeAgent.cachedBce args)) with
  | some status =>
      simp only
      split
      · exact ⟨s, rfl, ok.stays⟩
      · exact ⟨_, rfl, ok.sendBaErr (ok.balanced.told_refused checked ‹_›)⟩
  | none =>
      have notDad : ∀ b, s.bcacheGet args.key = some b → b.type ≠ .dad := by
        intro b found
        rw [found, Option.map_some] at checked
        rcases cachedStatus_none checked with blocked | ⟨-, notDad⟩
        · rw [blocked]
          exact fun same => by cases same
        · exact notDad
      have free := ok.free notDad
      simp only
      cases kept : (s.bcacheGet args.key).filter fun bce => bce.type ≠ .nonceBlock with
      | some b =>
          obtain ⟨found, notBlocked⟩ := Option.filter_eq_some_iff.mp kept
          cases granted : haGrant conf.toHaConf args.bu a.now with
          | error status =>
              obtain ⟨s', refused, gone⟩ := ok.balanced.bcacheDelete args.key
              simp only [HomeAgent.refuse, refused, ok_bind]
              exact ⟨_, rfl, (gone.sendBaErr rfl _ _).next ok.waits free⟩
          | ok result =>
              obtain ⟨status, lft⟩ := result
              obtain ⟨member, isKey⟩ := bcacheGet_some found
              have home : b.type = .homereg := by
                rw [found, Option.map_some] at checked
                have kind := ok.balanced.kinds b member
                rcases cachedStatus_none checked with blocked | ⟨sameHome, notDad⟩
                · exact absurd blocked (of_decide_eq_true notBlocked)
                · have isHome : b.flags.home = true := sameHome.trans args.bu.home
                  cases type : b.type with
                  | homereg => rfl
                  | nonceBlock => exact absurd type (of_decide_eq_true notBlocked)
                  | dad => exact absurd type notDad
                  | cached =>
                      rw [kind.cached (Or.inl type)] at isHome
                      cases isHome
                  | cacheDying =>
                      rw [kind.cached (Or.inr type)] at isHome
                      cases isHome
              obtain ⟨s', renewed, done⟩ := @renew_ok leads orderly conf a s b
                ⟨args, status, lft, HomeAgent.usedSeqno args (s.bcacheGet args.key)⟩ args.key
                ok.balanced found home isKey sound.1 sound.2
                (fun leading => movable leading b found home)
                (fun inOrder => (ordered inOrder).follows)
                (fun inOrder => (ordered inOrder).llocal b found)
              exact ⟨s', renewed, done.next ok.waits free⟩
      | none =>
          have idle : ∀ b, s.bcacheGet args.key = some b → b.cleanup = false := by
            intro b found
            have blocked : b.type = .nonceBlock := by
              rw [found] at kept
              by_contra other
              rw [Option.filter_some, if_pos (decide_eq_true other)] at kept
              cases kept
            have kind := ok.balanced.kinds b (bcacheGet_some found).1
            refine (kind.idle ?_ (Option.some_ne_none _).symm).2
            rw [blocked]
            exact fun same => by cases same
          have emptied := bcacheDelete_idle idle
          obtain ⟨s₁, dropped, gone⟩ := ok.balanced.bcacheDelete args.key
          rw [emptied] at dropped
          cases dropped
          cases granted : haGrant conf.toHaConf args.bu a.now with
          | error status =>
              simp only [emptied, ok_bind]
              exact ⟨_, rfl, (gone.sendBaErr rfl _ _).next ok.waits free⟩
          | ok result =>
              obtain ⟨status, lft⟩ := result
              simp only [emptied, ok_bind]
              exact startDad_ok ok.waits gone free (link_positive linked granted) sound.2
                fun inOrder => (ordered inOrder).follows

theorem eraseP_gone {waiting : List DadWait} (nodup : (waiting.map DadWait.key).Nodup)
    (key : BcKey) : ∀ w ∈ waiting.eraseP fun w => w.key = key, w.key ≠ key := by
  induction waiting with
  | nil =>
      intro w member
      cases member
  | cons v rest ih =>
      rw [List.map_cons, List.nodup_cons] at nodup
      intro w member
      by_cases isKey : v.key = key
      · simp only [List.eraseP_cons, decide_eq_true isKey, cond_true] at member
        intro same
        exact nodup.1 (List.mem_map.mpr ⟨w, member, same.trans isKey.symm⟩)
      · simp only [List.eraseP_cons, decide_eq_false isKey, cond_false] at member
        rcases List.mem_cons.mp member with rfl | inRest
        · exact isKey
        · exact ih nodup.2 w inRest

theorem dadDone_ok {success : Bool} (ok : HomeOk leads orderly s) (sound : a.Sound s)
    (ordered : orderly → (Event.dadDone key success a).Orderly conf s) :
    ∃ s', s.dadDone conf key success a = .ok s' ∧ Next leads orderly s s' := by
  simp only [HomeAgent.dadDone]
  cases waiting : s.waiting.find? fun w => w.key = key with
  | none => exact ⟨s, rfl, ok.stays⟩
  | some w =>
      have member := List.mem_of_find?_eq_some waiting
      have isKey := List.find?_some waiting
      obtain rfl : w.key = key := of_decide_eq_true isKey
      obtain ⟨b, inCache, sameKey, dad, coa⟩ := ok.waits.entries w member
      have found : s.bcacheGet w.key = some b := sameKey ▸ bcacheGet_unique ok.balanced inCache
      let s₁ : HomeAgent := { s with waiting := s.waiting.eraseP fun v => v.key = w.key }
      have balanced : Balanced leads orderly s₁ s₁.bc none := ok.balanced.frame rfl rfl rfl rfl
      have next : ∀ s', Done leads orderly s₁ s' w.key → Next leads orderly s s' := by
        intro s' done
        refine ⟨⟨done.balanced, ok.waits.settle done rfl List.eraseP_sublist
          (eraseP_gone ok.waits.nodup _) ?_⟩, done.acked⟩
        intro v before apart
        exact (List.mem_eraseP_of_neg (by simpa using apart)).mpr before
      cases success with
      | true =>
          have found₁ : HomeAgent.bcacheGet
              { s with waiting := s.waiting.eraseP fun v => v.key = w.key } w.key = some b := found
          obtain ⟨s', registered, done⟩ := @register_ok leads orderly conf a s₁ b w w.key balanced
            found₁ dad sameKey coa sound.2 (fun inOrder => (ordered inOrder w member rfl).follows)
          simp only [if_true, found₁]
          exact ⟨s', registered, next s' done⟩
      | false =>
          obtain ⟨s', deleted, gone⟩ := balanced.bcacheDelete w.key
          simp only [Bool.false_eq_true, if_false]
          change ∃ s', (s₁.bcacheDelete w.key >>= fun s =>
            Except.ok (s.sendBaErr w.args basDadFailed w.seqno)) = .ok s' ∧ _
          rw [deleted]
          exact ⟨_, rfl, next _ (gone.sendBaErr rfl _ _)⟩

theorem expire_ok (ok : HomeOk leads orderly s) (minlft : Bool) :
    ∃ s', s.expire key minlft = .ok s' ∧ Next leads orderly s s' := by
  simp only [HomeAgent.expire]
  cases found : s.bcacheGet key with
  | none => exact ⟨s, rfl, ok.stays⟩
  | some b =>
      by_cases dad : b.type = .dad
      · simp only [dad]
        exact ⟨s, rfl, ok.stays⟩
      · have free : ∀ w ∈ s.waiting, w.key ≠ key := ok.free fun c isC => by
          rw [found] at isC
          exact Option.some.inj isC ▸ dad
        obtain ⟨s', deleted, done⟩ := ok.balanced.bceDelete found minlft
        simp only
        cases type : b.type with
        | dad => exact absurd type dad
        | cached =>
            obtain ⟨member, rfl⟩ := bcacheGet_some found
            have kind := ok.balanced.kinds b member
            have notHome : b.type ≠ .homereg := by
              rw [type]
              exact fun same => by cases same
            have retyped := (ok.balanced.take found).rewrite notHome { b with type := .cacheDying }
              rfl rfl rfl rfl rfl (fun same => by cases same) (fun same => by cases same)
              fun _ => kind.cached (Or.inl type)
            exact ⟨_, rfl, (Done.put retyped fun same => by cases same).next ok.waits free⟩
        | homereg => exact ⟨s', deleted, done.next ok.waits free⟩
        | cacheDying => exact ⟨s', deleted, done.next ok.waits free⟩
        | nonceBlock => exact ⟨s', deleted, done.next ok.waits free⟩

theorem Balanced.cnNew (balanced : Balanced leads orderly s s.bc none) (bu : CnBu)
    (absent : ∀ c ∈ s.bc, c.key ≠ bu.key) :
    Done leads orderly s (s.put ((HomeAgent.bcacheAlloc bu.key).bound bu)) bu.key := by
  have kind : Kind none ((HomeAgent.bcacheAlloc bu.key).bound bu) := by
    refine ⟨?_, ?_, ?_, fun _ _ => ⟨rfl, rfl⟩, fun _ _ => rfl, fun _ => bu.notHome⟩
    · intro home
      cases home
    · rintro (cleans | dad)
      · cases cleans
      · cases dad
    · intro cleans
      cases cleans
  have added := balanced.new (b := (HomeAgent.bcacheAlloc bu.key).bound bu) absent kind
    fun home => by cases home
  refine ⟨added, rfl, put_without s ((HomeAgent.bcacheAlloc bu.key).bound bu), ?_, [], rfl,
    fun _ member => absurd member List.not_mem_nil⟩
  intro c member isKey
  rcases List.mem_cons.mp member with rfl | other
  · exact fun same => by cases same
  · exact absurd isKey (mem_without.mp other).2

theorem cnBind_none (balanced : Balanced leads orderly s s.bc none) (bu : CnBu) (env : CnEnv)
    (absent : ∀ c ∈ s.bc, c.key ≠ bu.key) :
    ∃ s', s.cnBind bu none env = .ok s' ∧ Done leads orderly s s' bu.key := by
  have stays : Done leads orderly s s bu.key :=
    ⟨balanced, rfl, rfl, fun c member isKey => absurd isKey (absent c member), [], rfl,
      fun _ member => absurd member List.not_mem_nil⟩
  simp only [HomeAgent.cnBind]
  split
  · refine ⟨_, rfl, ?_⟩
    split
    · exact balanced.cnNew bu absent
    · exact stays
  · exact ⟨s, rfl, stays⟩

theorem cnBind_some (balanced : Balanced leads orderly s s.bc none) {bu : CnBu} (env : CnEnv)
    (found : s.bcacheGet bu.key = some b) (notHome : b.type ≠ .homereg) :
    ∃ s', s.cnBind bu (some b) env = .ok s' ∧ Done leads orderly s s' bu.key := by
  simp only [HomeAgent.cnBind]
  split
  · have bound := (balanced.take found).rewrite notHome (b.bound bu) rfl rfl rfl rfl rfl
      (fun same => by cases same) (fun same => by cases same) fun _ => bu.notHome
    have isKey : (b.bound bu).key = bu.key := (bcacheGet_some found).2
    exact ⟨_, rfl, isKey ▸ Done.put bound fun same => by cases same⟩
  · exact balanced.bceDelete found env.minlft

theorem cnRecvBu_ok (ok : HomeOk leads orderly s) {bu : CnBu} {env : CnEnv}
    (sound : (Event.cnRecvBu bu env).Sound s) :
    ∃ s', s.cnRecvBu bu env = .ok s' ∧ Next leads orderly s s' := by
  have free := ok.free fun b found => (sound b found).2
  simp only [HomeAgent.cnRecvBu]
  cases found : s.bcacheGet bu.key with
  | none =>
      obtain ⟨s', bound, done⟩ := cnBind_none ok.balanced bu env (bcacheGet_none found)
      exact ⟨s', bound, done.next ok.waits free⟩
  | some b =>
      simp only
      split
      · exact ⟨s, rfl, ok.stays⟩
      · split
        · exact ⟨s, rfl, ok.stays⟩
        · split
          · split
            · obtain ⟨s₁, deleted, gone⟩ := ok.balanced.bcacheDelete bu.key
              obtain ⟨s', bound, done⟩ := cnBind_none gone.balanced bu env gone.absent
              simp only [deleted, ok_bind]
              exact ⟨s', bound, (done.since (without_without gone.cache) gone.waiting
                gone.acks).next ok.waits free⟩
            · exact ⟨s, rfl, ok.stays⟩
          · obtain ⟨s', bound, done⟩ := cnBind_some ok.balanced env found (sound b found).1
            exact ⟨s', bound, done.next ok.waits free⟩

theorem HomeOk.recount (ok : HomeOk leads orderly s) (found : s.bcacheGet key = some b)
    (unreach : Nat) : HomeOk leads orderly (s.put { b with unreach }) where
  balanced := ((ok.balanced.take found).recount unreach).frame rfl rfl rfl rfl
  waits := by
    have member := (bcacheGet_some found).1
    refine ⟨?_, ?_, ok.waits.nodup⟩
    · intro w waiting
      obtain ⟨c, inCache, isKey, is⟩ := ok.waits.entries w waiting
      by_cases same : c.key = b.key
      · obtain rfl := List.inj_on_of_nodup_map ok.balanced.nodup inCache member same
        exact ⟨_, List.mem_cons_self, isKey, is⟩
      · exact ⟨c, List.mem_cons_of_mem _ (mem_without.mpr ⟨inCache, same⟩), isKey, is⟩
    · intro c inCache dad
      rcases List.mem_cons.mp inCache with rfl | other
      · exact ok.waits.workers b member dad
      · exact ok.waits.workers c (mem_without.mp other).1 dad

theorem cnRecvDstUnreach_ok (ok : HomeOk leads orderly s) {minlft : Bool}
    (sound : (Event.cnRecvDstUnreach key minlft).Sound s) :
    ∃ s', s.cnRecvDstUnreach key minlft = .ok s' ∧ Next leads orderly s s' := by
  simp only [HomeAgent.cnRecvDstUnreach]
  cases found : s.bcacheGet key with
  | none => exact ⟨s, rfl, ok.stays⟩
  | some b =>
      have counted := ok.recount found (b.unreach + 1)
      have isKey := (bcacheGet_some found).2
      simp only
      split
      · rename_i persists
        have again : (s.put { b with unreach := b.unreach + 1 }).bcacheGet b.key =
            some { b with unreach := b.unreach + 1 } :=
          bcacheGet_put s { b with unreach := b.unreach + 1 }
        obtain ⟨s', deleted, done⟩ := counted.balanced.bceDelete again minlft
        have notDad : ∀ c, s.bcacheGet key = some c → c.type ≠ .dad := by
          intro c isC dad
          have few := sound c isC dad
          rw [found, Option.some.injEq] at isC
          subst isC
          omega
        have others : (s.put { b with unreach := b.unreach + 1 }).without b.key = s.without b.key :=
          put_without s { b with unreach := b.unreach + 1 }
        exact ⟨s', deleted, (done.since others rfl rfl).next ok.waits (isKey ▸ ok.free notDad)⟩
      · exact ⟨_, rfl, counted, [], rfl, fun _ member => absurd member List.not_mem_nil⟩

theorem HomeOk.others (ok : HomeOk leads orderly s) {ctl : TunnelCtl} {others : List Int}
    (counted : TunnelCtl.Counted ctl (s.bc.flatMap Bcentry.refs ++ others))
    (ends : ∀ i ∈ s.bc.flatMap Bcentry.refs, ctl.endsAt i = s.ctl.endsAt i) :
    Next leads orderly s { s with ctl, others } := by
  have balanced := ok.balanced
  refine ⟨⟨⟨balanced.nodup, balanced.kinds, counted, ?_, balanced.kernel, balanced.mpa⟩,
    ok.waits.entries, ok.waits.workers, ok.waits.nodup⟩, [], rfl,
    fun _ member => absurd member List.not_mem_nil⟩
  intro b member positive
  obtain ⟨r, is, leadsTo⟩ := balanced.ends b member positive
  exact ⟨r, (ends _ (mem_refs member positive)).trans is, leadsTo⟩

theorem otherAdd_ok (ok : HomeOk leads orderly s) {env : TunnelEnv}
    (fresh : ∀ i ∈ env.ifindex, NewIndex s.ctl i) (l r : In6Addr) (link : Int) :
    Next leads orderly s (s.otherAdd env l r link) := by
  have accepting := tunnelAddOps_accepting s.ctl env l r link ()
  simp only [HomeAgent.otherAdd]
  rcases tunnelAddOps_cases ok.balanced.counted fresh (fun _ _ data => .ok (data, true)) l r link ()
    with ⟨ctl, failed, after, ends⟩ | ⟨i, ctl, c₂, positive, asks, after, -, ends, -⟩
  · rw [accepting, Except.ok.injEq, Prod.mk.injEq, Prod.mk.injEq] at failed
    rw [← Prod.mk.eta (p := s.ctl.tunnelAdd env l r link), failed.1, failed.2.2]
    exact ok.others after fun i _ => congrFun ends i
  · rw [accepting] at asks
    simp only [ok_bind, if_true, Except.ok.injEq, Prod.mk.injEq] at asks
    have notNegative : ¬ i < 0 := by omega
    rw [← Prod.mk.eta (p := s.ctl.tunnelAdd env l r link), asks.1, asks.2.2]
    simp only [if_neg notNegative]
    exact ok.others (after.perm List.perm_middle.symm)
      fun j member => ends j (List.mem_append_left _ member)

theorem otherDel_ok (ok : HomeOk leads orderly s) (ifindex : Int) :
    Next leads orderly s (s.otherDel ifindex) := by
  simp only [HomeAgent.otherDel]
  split
  · rename_i held
    have member : ifindex ∈ s.others := List.contains_iff_mem.mp held
    have counted := ok.balanced.counted.perm
      (((List.perm_cons_erase member).append_left _).trans List.perm_middle)
    obtain ⟨ctl, -, deleted, after, ends⟩ :=
      tunnelDelOps_cases counted (fun _ _ data => .ok (data, true)) ()
    rw [tunnelDelOps_accepting] at deleted
    simp only [ok_bind, Except.ok.injEq, Prod.mk.injEq] at deleted
    rw [deleted.1]
    exact ok.others after fun j inRefs => ends j (List.mem_append_left _ inRefs)
  · exact ok.stays

theorem step_ok (linked : ∀ i ∈ conf.interfaces, 0 < i.ifindex) (ok : HomeOk leads orderly s)
    {event : Event} (sound : event.Sound s) (leadsTo : leads → event.Leads s)
    (ordered : orderly → event.Orderly conf s) :
    ∃ s', s.step conf event = .ok s' ∧ Next leads orderly s s' := by
  cases event with
  | haRecvBu args a => exact haRecvBuWorker_ok linked ok sound leadsTo ordered
  | dadDone key success a => exact dadDone_ok ok sound ordered
  | expire key minlft => exact expire_ok ok minlft
  | cnRecvBu bu env => exact cnRecvBu_ok ok sound
  | cnRecvDstUnreach key minlft => exact cnRecvDstUnreach_ok ok sound
  | otherAdd env l r link => exact ⟨_, rfl, otherAdd_ok ok sound l r link⟩
  | otherDel ifindex => exact ⟨_, rfl, otherDel_ok ok ifindex⟩

theorem HomeOk.init : HomeOk leads orderly HomeAgent.init where
  balanced := by
    refine ⟨List.nodup_nil, ?_, TunnelCtl.Counted.init, ?_, ⟨?_, ?_⟩, ?_⟩
    · exact fun b member => absurd member List.not_mem_nil
    · exact fun b member => absurd member List.not_mem_nil
    · refine ⟨?_, ?_, ?_, ?_, ?_⟩
      · exact fun i addr present => absurd present Bool.false_ne_true
      · exact fun b member => absurd member List.not_mem_nil
      · exact fun l o addr present => absurd present Bool.false_ne_true
      · exact fun b member => absurd member List.not_mem_nil
      · exact fun l addr present => absurd present Bool.false_ne_true
    · intro _
      refine ⟨?_, ?_, ?_, List.Pairwise.nil⟩
      · exact fun i net present => absurd present Bool.false_ne_true
      · exact fun b member => absurd member List.not_mem_nil
      · exact fun b member => absurd member List.not_mem_nil
    · exact fun key started => absurd started Bool.false_ne_true
  waits := by
    refine ⟨?_, ?_, List.nodup_nil⟩
    · exact fun w member => absurd member List.not_mem_nil
    · exact fun b member => absurd member List.not_mem_nil

end Steps

def Event.Regular (leads orderly : Prop) (conf : HaRegConf) (s : HomeAgent) (event : Event) :
    Prop :=
  event.Sound s ∧ (leads → event.Leads s) ∧ (orderly → event.Orderly conf s)

theorem run_ok {leads orderly : Prop} {conf : HaRegConf}
    (linked : ∀ i ∈ conf.interfaces, 0 < i.ifindex) {events : List Event}
    (regular : Meets (HomeAgent.step conf) (fun s event => event.Regular leads orderly conf s)
      HomeAgent.init events) :
    ∃ s, run (HomeAgent.step conf) HomeAgent.init events = .ok s ∧ HomeOk leads orderly s := by
  refine run_succeeds ?_ HomeOk.init regular
  intro s event ok ⟨sound, leadsTo, ordered⟩
  obtain ⟨s', taken, next⟩ := step_ok linked ok sound leadsTo ordered
  exact ⟨s', taken, next.ok⟩

/-! ## What holds at the end of a run -/

/-- The references to the tunnels: one for each binding that is registered, and those
of the other users. -/
def HomeAgent.tunnelRefs (s : HomeAgent) : List Int :=
  (s.bc.filter fun b => b.type = .homereg).map Bcentry.tunnel ++ s.others

/-- Tunnels, routes, proxy entries and advertisements are those of the registered
bindings, and workers wait for just the bindings that are being made. -/
structure Accounted (s : HomeAgent) : Prop where
  keys : (s.bc.map Bcentry.key).Nodup
  users : ∀ i, (s.ctl.tunnelAt i).map Mip6Tnl.users =
    if i ∈ s.tunnelRefs then some (s.tunnelRefs.count i : Int) else none
  tunnels : ∀ b ∈ s.bc, b.type = .homereg → ∃ r, s.ctl.endsAt b.tunnel = some (b.ourAddr, r)
  hoa : ∀ i a, s.kernel.routes (hoaRoute i a) = true ↔
    ∃ b ∈ s.bc, b.type = .homereg ∧ b.tunnel = i ∧ b.peerAddr = a
  out : ∀ l o a, s.kernel.routes (outRoute l o a) = true ↔
    ∃ b ∈ s.bc, b.type = .homereg ∧ b.link = l ∧ b.key = ⟨o, a⟩
  proxies : ∀ l a, s.kernel.proxies (l, a) = true →
    (∃ b ∈ s.bc, b.type = .homereg ∧ b.link = l ∧
      (a = b.peerAddr ∨ b.flags.llocal = true ∧ a = llocalAddr b.peerAddr)) ∨
    ∃ peer, a = llocalAddr peer
  advertised : ∀ key, s.mpa key = true → ∃ b ∈ s.bc, b.key = key ∧ b.type = .homereg
  waiting : ∀ key, (∃ w ∈ s.waiting, w.key = key) ↔ ∃ b ∈ s.bc, b.key = key ∧ b.type = .dad

section Ends
variable {leads orderly : Prop} {s : HomeAgent} {b : Bcentry}

theorem Balanced.home_of_tunnel (balanced : Balanced leads orderly s s.bc none)
    (member : b ∈ s.bc) (linked : 0 < b.tunnel) : b.type = .homereg := by
  by_contra notHome
  rw [((balanced.kinds b member).idle notHome (Option.some_ne_none _).symm).1] at linked
  exact lt_irrefl 0 linked

theorem Balanced.home_of_cleanup (balanced : Balanced leads orderly s s.bc none)
    (member : b ∈ s.bc) (cleans : b.cleanup = true) : b.type = .homereg := by
  by_contra notHome
  rw [((balanced.kinds b member).idle notHome (Option.some_ne_none _).symm).2] at cleans
  cases cleans

theorem refs_eq {bc : List Bcentry} (kinds : ∀ b ∈ bc, Kind none b) :
    bc.flatMap Bcentry.refs = (bc.filter fun b => b.type = .homereg).map Bcentry.tunnel := by
  induction bc with
  | nil => rfl
  | cons b rest ih =>
      have kind := kinds b List.mem_cons_self
      rw [List.flatMap_cons, ih fun c member => kinds c (List.mem_cons_of_mem _ member)]
      by_cases home : b.type = .homereg
      · rw [Bcentry.refs, if_pos (kind.home home).1]
        simp only [List.filter_cons, decide_eq_true home, if_true, List.map_cons,
          List.singleton_append]
      · have noTunnel := (kind.idle home (Option.some_ne_none _).symm).1
        rw [Bcentry.refs, noTunnel, if_neg (lt_irrefl 0)]
        simp only [List.filter_cons, decide_eq_false home, Bool.false_eq_true, if_false,
          List.nil_append]

theorem HomeOk.accounted (ok : HomeOk leads orderly s) : Accounted s where
  keys := ok.balanced.nodup
  users := by
    rw [HomeAgent.tunnelRefs, ← refs_eq ok.balanced.kinds]
    exact ok.balanced.counted.counts
  tunnels := by
    intro b member home
    obtain ⟨r, is, -⟩ := ok.balanced.ends b member ((ok.balanced.kinds b member).home home).1
    exact ⟨r, is⟩
  hoa := by
    intro i a
    constructor
    · intro present
      obtain ⟨b, member, positive, isTunnel, isPeer⟩ := ok.balanced.kernel.routed.hoa i a present
      exact ⟨b, member, ok.balanced.home_of_tunnel member (isTunnel ▸ positive), isTunnel, isPeer⟩
    · rintro ⟨b, member, home, rfl, rfl⟩
      exact ok.balanced.kernel.routed.hoaAll b member home (Option.some_ne_none _).symm
  out := by
    intro l o a
    constructor
    · intro present
      obtain ⟨b, member, cleans, isLink, isKey⟩ := ok.balanced.kernel.routed.out l o a present
      exact ⟨b, member, ok.balanced.home_of_cleanup member cleans, isLink, isKey⟩
    · rintro ⟨b, member, home, rfl, isKey⟩
      obtain ⟨rfl, rfl⟩ := BcKey.mk.inj isKey
      exact ok.balanced.kernel.routed.outAll b member home
  proxies := by
    intro l a present
    rcases ok.balanced.kernel.routed.proxies l a present with
      ⟨b, member, cleans, isLink, isAddr⟩ | ⟨-, leaked⟩
    · exact Or.inl ⟨b, member, ok.balanced.home_of_cleanup member cleans, isLink, isAddr⟩
    · exact Or.inr leaked
  advertised := ok.balanced.mpa
  waiting := by
    intro key
    constructor
    · rintro ⟨w, member, rfl⟩
      obtain ⟨b, inCache, isKey, dad, -⟩ := ok.waits.entries w member
      exact ⟨b, inCache, isKey, dad⟩
    · rintro ⟨b, inCache, rfl, dad⟩
      exact ok.waits.workers b inCache dad

/-- A newer update without the H flag for a registered binding: its tunnel and its
routes are left behind.  Hence the condition on such updates in `Event.Sound`. -/
theorem cnRecvBu_unaccounted (ok : HomeOk leads orderly s) {bu : CnBu} {env : CnEnv}
    (found : s.bcacheGet bu.key = some b) (home : b.type = .homereg)
    (newer : mip6SeqGt bu.request.seqno b.seqno = true)
    (lives : tsisset bu.request.lifetime = true) (binds : env.binds = true) :
    ∃ s', s.cnRecvBu bu env = .ok s' ∧ ¬ Accounted s' := by
  obtain ⟨member, isKey⟩ := bcacheGet_some found
  have bound : s.cnRecvBu bu env = .ok (s.put (b.bound bu)) := by
    simp [HomeAgent.cnRecvBu, HomeAgent.cnBind, found, newer, home, binds, lives]
  refine ⟨_, bound, ?_⟩
  intro accounted
  have routed : s.kernel.routes (hoaRoute b.tunnel b.peerAddr) = true :=
    ok.balanced.kernel.routed.hoaAll b member home (Option.some_ne_none _).symm
  obtain ⟨c, inCache, isHome, isTunnel, isPeer⟩ := (accounted.hoa b.tunnel b.peerAddr).mp routed
  rcases List.mem_cons.mp inCache with rfl | other
  · cases isHome
  · obtain ⟨before, apart⟩ := mem_without.mp other
    obtain ⟨r, here⟩ := ok.accounted.tunnels b member home
    obtain ⟨r', there⟩ := ok.accounted.tunnels c before isHome
    rw [isTunnel, here, Option.some.injEq, Prod.mk.injEq] at there
    refine apart ?_
    change (⟨c.ourAddr, c.peerAddr⟩ : BcKey) = ⟨b.ourAddr, b.peerAddr⟩
    rw [there.1, isPeer]

end Ends

def sampleConf : HaRegConf where
  toHaConf := homeConf
  useMnHaIpsec := false
  sendUnsolMobPfxAdvs := true
  getMnps := fun _ => []
  useKeymgm := fun _ _ => false

def sampleMnp : PrefixListEntry where
  plePlen := 48
  plePrefix := ⟨0x20 :: 1 :: 0xd :: 0xb8 :: 0 :: 5 :: List.replicate 10 0, rfl⟩

def sampleArgs : HaRecvBuArgs where
  bu := { homeBu with isMobRtr := true }
  bindCoa := ⟨0x20 :: 1 :: 0xd :: 0xb8 :: 0 :: 9 :: List.replicate 10 7, rfl⟩
  llocal := false
  keym := false
  mobNetPrefixes := some [sampleMnp]
  flags := ⟨false, false⟩
  skipDad := false

def sampleAnswers : Answers where
  now := ⟨350, 5⟩
  alloc := true
  mnpAlloc := true
  takes := fun _ => true
  proxy := true
  proxyLl := true
  tunnel := ⟨true, true, ⟨some 7, true⟩, true⟩
  tnlPolAdd := true
  trnsUpdate := true
  tnlUpdate := true

def sampleUpdate : Event := .haRecvBu sampleArgs sampleAnswers

def sampleDadDone : Event := .dadDone sampleArgs.key true sampleAnswers

def sampleWaiting : HomeAgent :=
  { HomeAgent.init.put (HomeAgent.newBce sampleArgs 9 3) with
    waiting := [⟨sampleArgs, 0, ⟨748, 0⟩, 9⟩] }

theorem sample_waits : HomeAgent.init.step sampleConf sampleUpdate = .ok sampleWaiting := rfl

theorem sample_linked : ∀ i ∈ sampleConf.interfaces, 0 < i.ifindex := by
  intro i member
  rw [List.mem_singleton.mp member]
  exact (by decide : (0 : Int) < 3)

theorem sample_sound {s : HomeAgent} (noTunnels : s.ctl = TunnelCtl.init) :
    sampleAnswers.Sound s := by
  refine ⟨rfl, ?_⟩
  intro i isIndex
  rw [← Option.some.inj isIndex, noTunnels]
  exact ⟨by decide, fun q member => absurd member List.not_mem_nil⟩

theorem sample_orderly {s : HomeAgent} (alone : s.without sampleArgs.key = [])
    (noLlocal : ∀ b ∈ s.bc, b.flags.llocal = false) :
    OrderlyUpdate sampleConf s sampleArgs sampleAnswers := by
  refine ⟨⟨⟨fun _ => rfl, fun ipsec => absurd ipsec Bool.false_ne_true⟩, ⟨?_, ?_⟩, ?_⟩, ?_⟩
  · intro p member
    rw [List.mem_singleton.mp member]
    decide
  · exact List.nodup_singleton _
  · rw [alone]
    exact fun c member => absurd member List.not_mem_nil
  · intro b found llocal
    rw [noLlocal b (bcacheGet_some found).1] at llocal
    cases llocal

theorem sample_regular : Meets (HomeAgent.step sampleConf)
    (fun s event => event.Sound s ∧ event.Leads s ∧ event.Orderly sampleConf s)
    HomeAgent.init [sampleUpdate, sampleDadDone] := by
  have unbound : ∀ b ∈ HomeAgent.init.bc, b.flags.llocal = false :=
    fun b member => absurd member List.not_mem_nil
  refine Meets.cons ⟨sample_sound rfl, ?_, sample_orderly rfl unbound⟩ sample_waits
    ⟨⟨sample_sound rfl, trivial, ?_⟩, fun _ _ => trivial⟩
  · intro b found
    cases found
  · intro w member _
    rw [List.mem_singleton.mp member]
    refine sample_orderly rfl ?_
    intro b member
    rw [List.mem_singleton.mp member]
    rfl

theorem sample_registered {s : HomeAgent}
    (finished : run (HomeAgent.step sampleConf) HomeAgent.init [sampleUpdate, sampleDadDone] =
      .ok s) : ∃ b ∈ s.bc, b.type = .homereg ∧ b.tunnel = 7 ∧ b.mobNetPrefixes = [sampleMnp] := by
  have types : (run (HomeAgent.step sampleConf) HomeAgent.init
      [sampleUpdate, sampleDadDone]).toOption.map (fun s => s.bc.map fun b =>
        (b.type, b.tunnel, b.mobNetPrefixes)) = some [(.homereg, 7, [sampleMnp])] := by
    decide
  rw [finished] at types
  have cache : s.bc.map (fun b => (b.type, b.tunnel, b.mobNetPrefixes)) =
      [(.homereg, 7, [sampleMnp])] := Option.some.inj types
  have inCache : (EntryType.homereg, (7 : Int), [sampleMnp]) ∈
      s.bc.map fun b => (b.type, b.tunnel, b.mobNetPrefixes) := by
    rw [cache]
    exact List.mem_singleton_self _
  obtain ⟨b, member, is⟩ := List.mem_map.mp inCache
  simp only [Prod.mk.injEq] at is
  exact ⟨b, member, is⟩

/-- If no shared tunnel is to be moved to where there is none, every registered binding
is reached through a tunnel to its care-of address. -/
theorem tunnels_lead_to_bindings (conf : HaRegConf)
    (linked : ∀ i ∈ conf.interfaces, 0 < i.ifindex) (events : List Event)
    (leading : Meets (HomeAgent.step conf) (fun s event => event.Sound s ∧ event.Leads s)
      HomeAgent.init events) :
    ∃ s, run (HomeAgent.step conf) HomeAgent.init events = .ok s ∧
      ∀ b ∈ s.bc, b.type = .homereg → s.ctl.endsAt b.tunnel = some (b.ourAddr, b.coa) ∧
        s.kernel.routes (hoaRoute b.tunnel b.peerAddr) = true := by
  have regular : Meets (HomeAgent.step conf)
      (fun s event => event.Regular True False conf s) HomeAgent.init events :=
    leading.weaken fun _ _ isLeading => ⟨isLeading.1, fun _ => isLeading.2, False.elim⟩
  obtain ⟨s, finished, ok⟩ := run_ok linked regular
  refine ⟨s, finished, ?_⟩
  intro b member home
  have positive := ((ok.balanced.kinds b member).home home).1
  obtain ⟨r, is, leadsTo⟩ := ok.balanced.ends b member positive
  refine ⟨?_, ok.balanced.kernel.routed.hoaAll b member home (Option.some_ne_none _).symm⟩
  rw [is, leadsTo trivial (Option.some_ne_none _).symm]

theorem router_reached : ∃ s, run (HomeAgent.step sampleConf) HomeAgent.init
      [sampleUpdate, sampleDadDone] = .ok s ∧
    ∃ b ∈ s.bc, b.type = .homereg ∧ s.ctl.endsAt b.tunnel = some (b.ourAddr, b.coa) := by
  obtain ⟨s, finished, leadsTo⟩ := tunnels_lead_to_bindings sampleConf sample_linked
    [sampleUpdate, sampleDadDone] (sample_regular.weaken fun _ _ regular => ⟨regular.1, regular.2.1⟩)
  obtain ⟨b, member, home, -⟩ := sample_registered finished
  exact ⟨s, finished, b, member, home, (leadsTo b member home).1⟩

/-- With a kernel that takes every route and updates that claim no prefix of another
binding, the routes for mobile network prefixes and the proxy entries are those of the
registered bindings. -/
theorem mobile_networks_routed (conf : HaRegConf)
    (linked : ∀ i ∈ conf.interfaces, 0 < i.ifindex) (events : List Event)
    (inOrder : Meets (HomeAgent.step conf) (fun s event => event.Sound s ∧ event.Orderly conf s)
      HomeAgent.init events) :
    ∃ s, run (HomeAgent.step conf) HomeAgent.init events = .ok s ∧
      (∀ i p, s.kernel.routes (mnpRoute i p) = true ↔
        ∃ b ∈ s.bc, b.type = .homereg ∧ b.tunnel = i ∧ prefixKey p ∈ keys b.mobNetPrefixes) ∧
      ∀ l a, s.kernel.proxies (l, a) = true → ∃ b ∈ s.bc, b.type = .homereg ∧ b.link = l ∧
        (a = b.peerAddr ∨ b.flags.llocal = true ∧ a = llocalAddr b.peerAddr) := by
  have regular : Meets (HomeAgent.step conf)
      (fun s event => event.Regular False True conf s) HomeAgent.init events :=
    inOrder.weaken fun _ _ isOrdered => ⟨isOrdered.1, False.elim, fun _ => isOrdered.2⟩
  obtain ⟨s, finished, ok⟩ := run_ok linked regular
  have mnps := ok.balanced.kernel.mnps trivial
  refine ⟨s, finished, ?_, ?_⟩
  · intro i p
    have isNet : mnpRoute i p = netRoute i (prefixKey p) := rfl
    rw [isNet]
    constructor
    · intro present
      obtain ⟨b, member, positive, isTunnel, inKeys⟩ := mnps.sound i _ present
      exact ⟨b, member, ok.balanced.home_of_tunnel member (isTunnel ▸ positive), isTunnel, inKeys⟩
    · rintro ⟨b, member, home, rfl, inKeys⟩
      exact mnps.complete b member ((ok.balanced.kinds b member).home home).1 _ inKeys
  · intro l a present
    rcases ok.balanced.kernel.routed.proxies l a present with
      ⟨b, member, cleans, isLink, isAddr⟩ | ⟨notOrderly, -⟩
    · exact ⟨b, member, ok.balanced.home_of_cleanup member cleans, isLink, isAddr⟩
    · exact absurd trivial notOrderly

theorem router_network_routed : ∃ s, run (HomeAgent.step sampleConf) HomeAgent.init
      [sampleUpdate, sampleDadDone] = .ok s ∧
    s.kernel.routes (mnpRoute 7 sampleMnp) = true := by
  obtain ⟨s, finished, routes, -⟩ := mobile_networks_routed sampleConf sample_linked
    [sampleUpdate, sampleDadDone] (sample_regular.weaken fun _ _ regular => ⟨regular.1, regular.2.2⟩)
  obtain ⟨b, member, home, isTunnel, mnps⟩ := sample_registered finished
  refine ⟨s, finished, (routes 7 sampleMnp).mpr ⟨b, member, home, isTunnel, ?_⟩⟩
  rw [mnps]
  exact mem_keys (List.mem_singleton_self _)

end OaiPmip.HomeReg
