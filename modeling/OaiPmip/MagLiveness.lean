import OaiPmip.MagMoves

/-!
# No dangling entry on the gateway

In every run in which each new registration finds its key free and memory for
its node, the nodes of the cache and the queued timers all belong to allocated
entries of the cache, and the count of the cache is right.  A registration arms
the entry's timer before `pmip_cache_add`, whose failure goes unnoticed, and an
entry is later deleted by its key: a registration that does not meet the
condition leaves a timer without an entry in the cache, or lets a later
deletion release an entry that stays in it.
-/

set_option autoImplicit false

namespace OaiPmip.Daemon

open OaiPmip.ChainTable OaiPmip.HashKeys OaiPmip.Runs

/-! ## The invariant -/

def NoDangling (d : Daemon) : Prop :=
  (∀ bce ∈ d.entries, d.live bce = true) ∧
    (∀ bce, .bce bce ∈ d.tun.tq.list → d.live bce = true ∧ bce ∈ d.entries) ∧
    d.count = d.entries.length

structure MagCacheOk (d : Daemon) : Prop extends HashOk d where
  armed : ∀ bce, .bce bce ∈ d.tun.tq.list → bce ∈ d.entries
  counted : d.count = d.entries.length

theorem MagCacheOk.noDangling {d : Daemon} (ok : MagCacheOk d) : NoDangling d :=
  ⟨ok.live, fun bce queued => ⟨ok.queued bce queued, ok.armed bce queued⟩, ok.counted⟩

theorem magCacheOk_init (tun : Tunnels) (hnp : List MnidHnp)
    (unarmed : ∀ bce, .bce bce ∉ tun.tq.list) : MagCacheOk (init tun hnp) :=
  { hashOk_init tun hnp unarmed with
    armed := fun bce queued => absurd queued (unarmed bce)
    counted := by simp [entries, init] }

/-- A registration finds no entry under the key that the map gives the node,
and memory for its hash node. -/
def InsertionSucceeds (conf : Conf) (d : Daemon) : MagInput → Prop
  | .event info env =>
      StartsRegistration conf info → d.cachedType info.mnNai conf.ourAddress = .noEntry →
        ∀ answer ∈ (HnpCache.mnidHnpMap d.hnp env.radius (eui64ToEui48 info.mnIid)
            info.mnNai).2,
          d.cached answer.2 conf.ourAddress = none ∧ env.nodeAlloc = true
  | .fire _ => True

instance (conf : Conf) (d : Daemon) : (input : MagInput) → Decidable (InsertionSucceeds conf d input)
  | .event info env =>
      inferInstanceAs (Decidable (StartsRegistration conf info →
        d.cachedType info.mnNai conf.ourAddress = .noEntry →
        ∀ answer ∈ (HnpCache.mnidHnpMap d.hnp env.radius (eui64ToEui48 info.mnIid)
            info.mnNai).2,
          d.cached answer.2 conf.ourAddress = none ∧ env.nodeAlloc = true))
  | .fire _ => .isTrue trivial

namespace MagCacheOk

variable {d d' : Daemon}

theorem touch (ok : MagCacheOk d) (used : List Nat) : MagCacheOk (d.touch used) where
  placed := ok.placed
  keys := ok.keys
  live := ok.live
  below := ok.below
  queued := ok.queued
  armed := ok.armed
  counted := ok.counted

theorem mem_of_known (ok : MagCacheOk d) {bce : Nat} (known : d.Known bce) : bce ∈ d.entries := by
  rcases known with member | queued
  · exact member
  · exact ok.armed bce queued

theorem frame (ok : MagCacheOk d) {bce : Nat} (member : bce ∈ d.entries)
    (frame : Frame PmipEntry.owner bce d d') : MagCacheOk d' :=
  { ok.toHashOk.frame_owner (ok.live bce member) frame with
    armed := by
      intro p queued
      rw [frame.entries]
      rcases frame.queued p queued with rfl | before
      · exact member
      · exact ok.armed p before
    counted := by rw [frame.count, frame.entries, ok.counted] }

theorem delete (ok : MagCacheOk d) {bce : Nat} (member : bce ∈ d.entries) :
    MagCacheOk (d.pmipBceDelete bce) := by
  have removed := ok.toHashOk.delete_entries member
  refine { ok.toHashOk.delete bce with armed := ?_, counted := ?_ }
  · intro p queued
    obtain ⟨before, different⟩ := (delete_queued d bce p).mp queued
    rcases List.mem_cons.mp (removed.mem_iff.mp (ok.armed p before)) with same | remains
    · exact absurd same different
    · exact remains
  · have shape : (d.pmipBceDelete bce).count = d.count - 1 := rfl
    have length := removed.length_eq
    rw [List.length_cons] at length
    rw [shape, ok.counted]
    omega

theorem registered (ok : MagCacheOk d) {conf : Conf} {env : Env} {info : MsgInfo}
    {map : List MnidHnp} {pfx : In6Addr} {nai : Nai}
    (free : d.cached nai conf.ourAddress = none) (mallocOk : env.nodeAlloc = true) :
    MagCacheOk ((d.registering conf env info map pfx nai).pmipCacheAdd conf env d.top) := by
  have frame := frame_registering conf d env info map pfx nai
  have sameEntries : (d.registering conf env info map pfx nai).entries = d.entries := frame.entries
  have new := registering_new conf env info map pfx ok.toHashOk free
  have added := pmipCacheAdd_added conf (d.registering conf env info map pfx nai) env d.top
  obtain ⟨joined, count⟩ := added.entries_perm new mallocOk
  refine { HashOk.registering conf env info map pfx ok.toHashOk (fun _ => free) with armed := ?_, counted := ?_ }
  · intro p queued
    rw [joined.mem_iff, List.mem_cons, sameEntries]
    rcases added.queued p queued with here | armed
    · exact Or.inl here
    · rcases frame.queued p armed with here | before
      · exact Or.inl here
      · exact Or.inr (ok.armed p before)
  · rw [count, joined.length_eq, List.length_cons, sameEntries, frame.count]
    have before : (d.allocated .temp).count = d.entries.length := ok.counted
    change (d.allocated .temp).count + 1 = _
    omega

end MagCacheOk

theorem magStep_cacheOk {conf : Conf} (isMag : conf.mip6Entity = .mag) (d : Daemon)
    (input : MagInput) (d' : Daemon) (ok : MagCacheOk d) (inserts : InsertionSucceeds conf d input)
    (taken : d.magStep conf input = .ok d') : MagCacheOk d' := by
  cases magStep_move isMag taken with
  | looked used => exact ok.touch used
  | leaked used =>
      exact { (ok.touch used).toHashOk.allocated .temp with
        armed := ok.armed
        counted := ok.counted }
  | registered used missing starts answer =>
      obtain ⟨free, mallocOk⟩ := inserts starts missing _ (by rw [answer]; rfl)
      exact (ok.touch used).registered free mallocOk
  | worked known work => exact ok.frame (ok.mem_of_known known) work.frame.owner
  | attached _ found wasTemp work ended =>
      have ends := (frame_magEndRegistration conf _ _ _ _).of_ok ended
      exact ok.frame (cached_some found).1 (work.frame.owner.trans ends)
  | detached known _ work dereg =>
      have whole := work.frame.owner.trans ((frame_magDereg conf _ _ _ true).of_ok dereg)
      have member := ok.mem_of_known known
      exact (ok.frame member whole).delete (whole.entries ▸ member)
  | dropped known spent work =>
      have member := ok.mem_of_known known
      exact (ok.frame member work.frame.owner).delete (work.frame.entries ▸ member)
  | @tunnelExpired _ mag queued =>
      have before : ∀ bce, .bce bce ∈ (d.tun.tq.delTask (.tunnel mag)).list →
          .bce bce ∈ d.tun.tq.list := fun bce remains =>
        ((TQueue.mem_delTask _ _ _).mp remains).1
      exact {
        placed := ok.placed
        keys := ok.keys
        live := ok.live
        below := ok.below
        queued := fun bce remains => ok.queued bce (before bce remains)
        armed := fun bce remains => ok.armed bce (before bce remains)
        counted := ok.counted }

/-- In every run whose registrations find their keys free and memory for their
nodes, no node of the cache and no queued timer belongs to a released entry or
to one outside the cache. -/
theorem mag_no_dangling_entry (conf : Conf) (isMag : conf.mip6Entity = .mag) (tun : Tunnels)
    (unarmed : ∀ bce, .bce bce ∉ tun.tq.list) (hnp : List MnidHnp) (inputs : List MagInput)
    (meets : Meets (magStep conf) (InsertionSucceeds conf) (init tun hnp) inputs)
    (final : Daemon) (finished : run (magStep conf) (init tun hnp) inputs = .ok final) :
    NoDangling final :=
  (run_invariant (magStep_cacheOk isMag) (magCacheOk_init tun hnp unarmed) meets
    finished).noDangling

def solicitor : In6Addr := linkLocalAddr in6addrLoopback

def replyA : RadiusReply where
  framedIpv6Prefix := some in6addrAny
  framedInterfaceId := none
  mobileNodeIdentifier := some [97]
  stack := in6addrAny

def solicitation (now : Timespec) : MagInput :=
  .event (Msgs.icmpRsParse solicitor in6addrAny 0)
    { Env.ample now 10 with radius := some replyA }

theorem mag_no_dangling_entry_solicited :
    ∃ final, run (magStep (confDefault .mag)) (init Tunnels.init [])
        [solicitation ⟨100, 0⟩, .fire (Env.ample ⟨102, 0⟩ 10)] = .ok final ∧
      NoDangling final ∧ final.entries = [0] := by
  have kept := mag_no_dangling_entry (confDefault .mag) rfl Tunnels.init
    (fun _ => List.not_mem_nil) [] [solicitation ⟨100, 0⟩, .fire (Env.ample ⟨102, 0⟩ 10)]
    (by decide)
  exact ⟨_, rfl, kept _ rfl, by decide⟩

/-- The node solicits three times.  Its solicitations are looked up under the
zero identifier, so each of them registers it; the third entry is not linked
and its timer runs. -/
theorem mag_dangling_timer :
    ¬ ∀ (inputs : List MagInput) (final : Daemon),
      run (magStep (confDefault .mag)) (init Tunnels.init []) inputs = .ok final →
        NoDangling final := by
  intro claimed
  obtain ⟨_, armed, _⟩ := claimed
    [solicitation ⟨100, 0⟩, solicitation ⟨100, 0⟩, solicitation ⟨100, 0⟩] _ rfl
  have outside := (armed 2 (by decide)).2
  revert outside
  decide

end OaiPmip.Daemon
