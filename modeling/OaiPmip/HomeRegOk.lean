import OaiPmip.HomeRoutes
import OaiPmip.Lib.Runs

/-!
# What the home agent keeps

Every tunnel has a user for each binding that goes through it, and every binding
that is set up has its tunnel and its routes, however the workers follow one another
and whatever the kernel refuses.  A worker that takes an entry in hand gives it back
set up, or deletes it with all that it had.
-/

set_option autoImplicit false

namespace OaiPmip.HomeReg

open OaiPmip.Cn OaiPmip.Ha OaiPmip.HaLifetimes OaiPmip.PrefixLists OaiPmip.TunnelCtl
open OaiPmip.Refcount OaiPmip.Runs

def Bcentry.refs (b : Bcentry) : List Int := if 0 < b.tunnel then [b.tunnel] else []

structure Kind (busy : Option BcKey) (b : Bcentry) : Prop where
  home : b.type = .homereg → 0 < b.tunnel ∧ b.cleanup = true
  link : b.cleanup = true ∨ b.type = .dad → 0 < b.link
  cleans : b.cleanup = true → b.type = .dad ∨ b.type = .homereg
  idle : b.type ≠ .homereg → busy ≠ some b.key → b.tunnel = 0 ∧ b.cleanup = false
  plain : busy ≠ some b.key → b.cleanup = false → b.mobNetPrefixes = []
  cached : b.type = .cached ∨ b.type = .cacheDying → b.flags.home = false

/-- The bindings of a list have their tunnels and routes, except for one that is
`busy`, and there is nothing else. -/
structure Balanced (leads orderly : Prop) (s : HomeAgent) (bc : List Bcentry)
    (busy : Option BcKey) : Prop where
  nodup : (bc.map Bcentry.key).Nodup
  kinds : ∀ b ∈ bc, Kind busy b
  counted : TunnelCtl.Counted s.ctl (bc.flatMap Bcentry.refs ++ s.others)
  ends : ∀ b ∈ bc, 0 < b.tunnel → ∃ r, s.ctl.endsAt b.tunnel = some (b.ourAddr, r) ∧
    (leads → busy ≠ some b.key → r = b.coa)
  kernel : KernelOk orderly s.kernel bc busy
  mpa : ∀ key, s.mpa key = true → ∃ b ∈ bc, b.key = key ∧ b.type = .homereg

section Basics
variable {leads orderly : Prop} {s s' : HomeAgent} {b : Bcentry} {rest bc : List Bcentry}
  {key : BcKey} {busy : Option BcKey}

theorem bcacheGet_some (found : s.bcacheGet key = some b) : b ∈ s.bc ∧ b.key = key := by
  have isKey := List.find?_some found
  exact ⟨List.mem_of_find?_eq_some found, of_decide_eq_true isKey⟩

theorem bcacheGet_none (found : s.bcacheGet key = none) : ∀ c ∈ s.bc, c.key ≠ key := by
  intro c member
  have other := List.find?_eq_none.mp found c member
  simpa using other

theorem mem_without {c : Bcentry} : c ∈ s.without key ↔ c ∈ s.bc ∧ c.key ≠ key := by
  simp [HomeAgent.without]

theorem without_of_absent (absent : ∀ c ∈ s.bc, c.key ≠ key) : s.without key = s.bc := by
  simp only [HomeAgent.without, List.filter_eq_self]
  intro c member
  simpa using absent c member

theorem put_without (s : HomeAgent) (b : Bcentry) :
    (s.put b).without b.key = s.without b.key := by
  simp [HomeAgent.put, HomeAgent.without]

theorem bcacheGet_put (s : HomeAgent) (b : Bcentry) : (s.put b).bcacheGet b.key = some b := by
  simp [HomeAgent.put, HomeAgent.bcacheGet]

theorem perm_without (nodup : (s.bc.map Bcentry.key).Nodup) (member : b ∈ s.bc) :
    s.bc.Perm (b :: s.without b.key) := by
  rw [HomeAgent.without]
  generalize s.bc = bc at nodup member
  induction bc with
  | nil => cases member
  | cons c rest ih =>
      rw [List.map_cons, List.nodup_cons] at nodup
      rcases List.mem_cons.mp member with rfl | inRest
      · have kept : rest.filter (fun c => c.key ≠ b.key) = rest := by
          rw [List.filter_eq_self]
          intro c inRest
          have apart : c.key ≠ b.key := fun same => nodup.1 (same ▸ List.mem_map_of_mem inRest)
          exact decide_eq_true apart
        rw [List.filter_cons_of_neg (by simp), kept]
      · have apart : c.key ≠ b.key := fun same => nodup.1 (same ▸ List.mem_map_of_mem inRest)
        rw [List.filter_cons_of_pos (by simpa using apart)]
        exact ((ih nodup.2 inRest).cons c).trans (List.Perm.swap b c _)

theorem Kind.hold (kind : Kind none b) (busy : Option BcKey) : Kind busy b :=
  ⟨kind.home, kind.link, kind.cleans,
    fun other _ => kind.idle other (Option.some_ne_none _).symm,
    fun _ => kind.plain (Option.some_ne_none _).symm, kind.cached⟩

theorem Kind.dad (dad : b.type = .dad) (link : 0 < b.link) : Kind (some b.key) b := by
  refine ⟨?_, fun _ => link, fun _ => Or.inl dad, fun _ notBusy => absurd rfl notBusy,
    fun notBusy => absurd rfl notBusy, ?_⟩
  · rw [dad]
    exact fun home => by cases home
  · rw [dad]
    rintro (cached | dying)
    · cases cached
    · cases dying

theorem Kind.registered (home : b.type = .homereg) (tunnel : 0 < b.tunnel)
    (cleans : b.cleanup = true) (link : 0 < b.link) : Kind busy b := by
  refine ⟨fun _ => ⟨tunnel, cleans⟩, fun _ => link, fun _ => Or.inr home,
    fun notHome => absurd home notHome, ?_, ?_⟩
  · rw [cleans]
    exact fun _ noCleanup => absurd noCleanup Bool.false_ne_true.symm
  · rw [home]
    rintro (cached | dying)
    · cases cached
    · cases dying

theorem Kind.drop {other : BcKey} (kind : Kind (some other) b) (apart : b.key ≠ other) :
    Kind none b := by
  have notBusy : some other ≠ some b.key := fun same => apart (Option.some.inj same).symm
  exact ⟨kind.home, kind.link, kind.cleans, fun notHome _ => kind.idle notHome notBusy,
    fun _ => kind.plain notBusy, kind.cached⟩

theorem Balanced.perm {bc' : List Bcentry} (balanced : Balanced leads orderly s bc busy)
    (same : bc.Perm bc') : Balanced leads orderly s bc' busy where
  nodup := (same.map _).nodup_iff.mp balanced.nodup
  kinds := fun b member => balanced.kinds b (same.mem_iff.mpr member)
  counted := balanced.counted.perm ((same.flatMap_right _).append_right _)
  ends := fun b member => balanced.ends b (same.mem_iff.mpr member)
  kernel := ⟨balanced.kernel.routed.perm same,
    fun ordered => (balanced.kernel.mnps ordered).perm same⟩
  mpa := by
    intro key started
    obtain ⟨b, member, is⟩ := balanced.mpa key started
    exact ⟨b, same.mem_iff.mp member, is⟩

theorem Balanced.frame (balanced : Balanced leads orderly s bc busy) (ctl : s'.ctl = s.ctl)
    (kernel : s'.kernel = s.kernel) (mpa : s'.mpa = s.mpa) (others : s'.others = s.others) :
    Balanced leads orderly s' bc busy := by
  refine ⟨balanced.nodup, balanced.kinds, ?_, ?_, ?_, ?_⟩
  · rw [ctl, others]
    exact balanced.counted
  · rw [ctl]
    exact balanced.ends
  · rw [kernel]
    exact balanced.kernel
  · rw [mpa]
    exact balanced.mpa

theorem Balanced.hold (balanced : Balanced leads orderly s bc none) (busy : Option BcKey) :
    Balanced leads orderly s bc busy where
  nodup := balanced.nodup
  kinds := fun b member => (balanced.kinds b member).hold busy
  counted := balanced.counted
  ends := by
    intro b member positive
    obtain ⟨r, is, leadsTo⟩ := balanced.ends b member positive
    exact ⟨r, is, fun leading _ => leadsTo leading (Option.some_ne_none _).symm⟩
  kernel := ⟨balanced.kernel.routed.hold busy, balanced.kernel.mnps⟩
  mpa := balanced.mpa

theorem Balanced.take (balanced : Balanced leads orderly s s.bc none)
    (found : s.bcacheGet key = some b) :
    Balanced leads orderly s (b :: s.without b.key) none := by
  exact balanced.perm (perm_without balanced.nodup (bcacheGet_some found).1)

theorem Balanced.keys (balanced : Balanced leads orderly s (b :: rest) busy) :
    ∀ c ∈ rest, c.key ≠ b.key := by
  intro c member same
  have fresh := (List.nodup_cons.mp balanced.nodup).1
  exact fresh (same ▸ List.mem_map_of_mem member)

theorem mem_refs (member : b ∈ bc) (positive : 0 < b.tunnel) :
    b.tunnel ∈ bc.flatMap Bcentry.refs := by
  refine List.mem_flatMap.mpr ⟨b, member, ?_⟩
  rw [Bcentry.refs, if_pos positive]
  exact List.mem_singleton_self _

theorem refs_cons (positive : 0 < b.tunnel) (others : List Int) :
    (b :: rest).flatMap Bcentry.refs ++ others =
      b.tunnel :: (rest.flatMap Bcentry.refs ++ others) := by
  rw [List.flatMap_cons, Bcentry.refs, if_pos positive]
  rfl

theorem refs_cons_none (noTunnel : ¬ 0 < b.tunnel) (others : List Int) :
    (b :: rest).flatMap Bcentry.refs ++ others = rest.flatMap Bcentry.refs ++ others := by
  rw [List.flatMap_cons, Bcentry.refs, if_neg noTunnel, List.nil_append]

theorem Balanced.apart (balanced : Balanced leads orderly s (b :: rest) busy) {i : Int}
    (positive : 0 < i) {r : In6Addr} {ctl : TunnelCtl}
    (here : ctl.endsAt i = some (b.ourAddr, r))
    (ends : ∀ j ∈ rest.flatMap Bcentry.refs, ctl.endsAt j = s.ctl.endsAt j) :
    ∀ c ∈ rest, c.tunnel = i → c.peerAddr ≠ b.peerAddr := by
  intro c member isTunnel samePeer
  have linked : 0 < c.tunnel := isTunnel ▸ positive
  obtain ⟨r', is, -⟩ := balanced.ends c (List.mem_cons_of_mem _ member) linked
  have same := ends _ (mem_refs member linked)
  rw [is, isTunnel, here, Option.some.injEq, Prod.mk.injEq] at same
  refine balanced.keys c member ?_
  rw [Bcentry.key, Bcentry.key, ← same.1, samePeer]

theorem Balanced.forget (balanced : Balanced leads orderly s (b :: rest) (some b.key))
    (noTunnel : ¬ 0 < b.tunnel) (noCleanup : b.cleanup = false) :
    Balanced leads orderly s rest none where
  nodup := (List.nodup_cons.mp balanced.nodup).2
  kinds := by
    intro c member
    exact (balanced.kinds c (List.mem_cons_of_mem _ member)).drop (balanced.keys c member)
  counted := by
    have counted := balanced.counted
    rw [refs_cons_none noTunnel] at counted
    exact counted
  ends := by
    intro c member positive
    obtain ⟨r, is, leadsTo⟩ := balanced.ends c (List.mem_cons_of_mem _ member) positive
    refine ⟨r, is, fun leading _ => leadsTo leading ?_⟩
    exact fun same => balanced.keys c member (Option.some.inj same).symm
  kernel := ⟨balanced.kernel.routed.forget balanced.keys noTunnel noCleanup,
    fun ordered => (balanced.kernel.mnps ordered).forget noTunnel⟩
  mpa := by
    intro key started
    obtain ⟨c, member, isKey, home⟩ := balanced.mpa key started
    rcases List.mem_cons.mp member with rfl | inRest
    · exact absurd ((balanced.kinds c List.mem_cons_self).home home).1 noTunnel
    · exact ⟨c, inRest, isKey, home⟩

end Basics

/-! ## A worker with an entry in hand -/

def InHand (leads orderly : Prop) (s : HomeAgent) (b : Bcentry) : Prop :=
  Balanced leads orderly s (b :: s.without b.key) (some b.key)

section Worker
variable {leads orderly : Prop} {s s' : HomeAgent} {b : Bcentry} {rest bc : List Bcentry}
  {key : BcKey} {busy : Option BcKey}

theorem Balanced.inHand (balanced : Balanced leads orderly s s.bc none)
    (found : s.bcacheGet key = some b) : InHand leads orderly s b :=
  (balanced.take found).hold _

theorem InHand.put (hand : InHand leads orderly s b) : InHand leads orderly (s.put b) b := by
  rw [InHand, put_without]
  exact hand.frame rfl rfl rfl rfl

theorem Balanced.stop (balanced : Balanced leads orderly s (b :: rest) (some b.key))
    (cleans : b.cleanup = true)
    (kernel : s'.kernel = (s.kernel.routeDel (outRoute b.link b.ourAddr b.peerAddr)).proxyNdStop
      b.link b.peerAddr b.flags.llocal) (ctl : s'.ctl = s.ctl)
    (mpa : s'.mpa = Function.update s.mpa b.key false) (others : s'.others = s.others) :
    Balanced leads orderly s' ({ b with cleanup := false, type := .dad } :: rest)
      (some b.key) where
  nodup := balanced.nodup
  kinds := by
    intro c member
    rcases List.mem_cons.mp member with rfl | inRest
    · have linked := (balanced.kinds b List.mem_cons_self).link (Or.inl cleans)
      refine ⟨?_, fun _ => linked, ?_, ?_, ?_, ?_⟩
      · intro home
        cases home
      · intro cleans
        cases cleans
      · exact fun _ notBusy => absurd rfl notBusy
      · exact fun notBusy => absurd rfl notBusy
      · rintro (cached | dying)
        · cases cached
        · cases dying
    · exact balanced.kinds c (List.mem_cons_of_mem _ inRest)
  counted := by
    rw [ctl, others]
    exact balanced.counted
  ends := by
    intro c member positive
    rw [ctl]
    rcases List.mem_cons.mp member with rfl | inRest
    · exact balanced.ends b List.mem_cons_self positive
    · exact balanced.ends c (List.mem_cons_of_mem _ inRest) positive
  kernel := by
    rw [kernel]
    refine ⟨balanced.kernel.routed.stop balanced.keys, ?_⟩
    intro ordered
    refine @Mnps.relabel _ _ b ((balanced.kernel.mnps ordered).congr ?_) _ rfl rfl
    intro route isMnp
    change (s.kernel.routeDel _).routes route = _
    rw [routeDel_routes, if_neg]
    rintro rfl
    exact not_isMnp_outRoute _ _ _ isMnp
  mpa := by
    intro key started
    rw [mpa, Function.update_apply] at started
    split at started
    · cases started
    · rename_i other
      obtain ⟨c, member, isKey, home⟩ := balanced.mpa key started
      rcases List.mem_cons.mp member with rfl | inRest
      · exact absurd isKey.symm other
      · exact ⟨c, List.mem_cons_of_mem _ inRest, isKey, home⟩

theorem Balanced.retunnel (balanced : Balanced leads orderly s (b :: rest) (some b.key))
    (b' : Bcentry) (key : b'.key = b.key) (home : b.type = .homereg → b'.type = .homereg)
    (kind : Kind (some b.key) b') {ctl : TunnelCtl} {kernel : Kernel}
    (counted : TunnelCtl.Counted ctl ((b' :: rest).flatMap Bcentry.refs ++ s.others))
    (here : 0 < b'.tunnel → ∃ r, ctl.endsAt b'.tunnel = some (b'.ourAddr, r))
    (ends : ∀ i ∈ rest.flatMap Bcentry.refs ++ s.others, ctl.endsAt i = s.ctl.endsAt i)
    (kernelOk : KernelOk orderly kernel (b' :: rest) (some b.key)) :
    Balanced leads orderly { s with ctl, kernel } (b' :: rest) (some b.key) where
  nodup := by
    rw [List.map_cons, key]
    exact balanced.nodup
  kinds := by
    intro c member
    rcases List.mem_cons.mp member with rfl | inRest
    · exact kind
    · exact balanced.kinds c (List.mem_cons_of_mem _ inRest)
  counted := counted
  ends := by
    intro c member positive
    rcases List.mem_cons.mp member with rfl | inRest
    · obtain ⟨r, is⟩ := here positive
      exact ⟨r, is, fun _ notBusy => absurd (congrArg some key.symm) notBusy⟩
    · obtain ⟨r, is, leadsTo⟩ := balanced.ends c (List.mem_cons_of_mem _ inRest) positive
      refine ⟨r, ?_, leadsTo⟩
      rw [← is]
      exact ends _ (List.mem_append_left _ (mem_refs inRest positive))
  kernel := kernelOk
  mpa := by
    intro key' started
    obtain ⟨c, member, isKey, isHome⟩ := balanced.mpa key' started
    rcases List.mem_cons.mp member with rfl | inRest
    · exact ⟨b', List.mem_cons_self, key.trans isKey, home isHome⟩
    · exact ⟨c, List.mem_cons_of_mem _ inRest, isKey, isHome⟩

theorem Balanced.tunnelDel (balanced : Balanced leads orderly s (b :: rest) (some b.key))
    (linked : 0 < b.tunnel) (notHome : b.type ≠ .homereg) {p : HomeTnlOpsParm}
    (peer : p.bce.peerAddr = b.peerAddr) (mnps : p.bce.mobNetPrefixes = b.mobNetPrefixes) :
    ∃ ctl kernel p', tunnelDelOps homeTnlOpsDel s.ctl b.tunnel (s.kernel, p) =
        .ok (ctl, (kernel, p'), 0) ∧
      Balanced leads orderly { s with ctl, kernel } ({ b with tunnel := 0 } :: rest)
        (some b.key) := by
  have counted := balanced.counted
  rw [refs_cons linked] at counted
  obtain ⟨ctl, -, deleted, after, ends⟩ :=
    tunnelDelOps_cases counted homeTnlOpsDel (s.kernel, p)
  obtain ⟨r, here, -⟩ := balanced.ends b List.mem_cons_self linked
  have apart := balanced.apart linked here fun _ _ => rfl
  obtain ⟨-, kernel⟩ := balanced.kernel.tnlDel apart peer mnps 0
  have kind := balanced.kinds b List.mem_cons_self
  refine ⟨ctl, (homeTnlDel b.tunnel 0 (s.kernel, p)).1, (homeTnlDel b.tunnel 0 (s.kernel, p)).2,
    ?_, balanced.retunnel { b with tunnel := 0 } rfl (fun home => home) ?_ ?_ ?_ ends kernel⟩
  · rw [deleted, homeTnlOpsDel, if_neg (ne_of_gt linked)]
    rfl
  · exact ⟨fun home => absurd home notHome, kind.link, kind.cleans,
      fun _ notBusy => absurd rfl notBusy, kind.plain, kind.cached⟩
  · rw [refs_cons_none (lt_irrefl 0)]
    exact after
  · exact fun positive => absurd positive (lt_irrefl 0)

theorem homeCleanup_ok (balanced : Balanced leads orderly s (b :: rest) (some b.key))
    (cleans : b.cleanup = true) : ∃ s', s.homeCleanup b = .ok s' ∧
      Balanced leads orderly s' rest none ∧ s'.bc = s.bc ∧ s'.waiting = s.waiting ∧
        s'.acks = s.acks := by
  have linked := (balanced.kinds b List.mem_cons_self).link (Or.inl cleans)
  let down : HomeAgent := { s.mpdCancelMpa b.key with
    kernel := (s.kernel.routeDel (outRoute b.link b.ourAddr b.peerAddr)).proxyNdStop b.link
      b.peerAddr b.flags.llocal }
  have stopped : Balanced leads orderly down ({ b with cleanup := false, type := .dad } :: rest)
      (some b.key) := balanced.stop cleans rfl rfl rfl rfl
  have isDown : (if b.link > 0 then
      { s.mpdCancelMpa b.key with
        kernel := ((s.mpdCancelMpa b.key).kernel.routeDel
          (outRoute b.link b.ourAddr b.peerAddr)).proxyNdStop b.link b.peerAddr b.flags.llocal }
      else s.mpdCancelMpa b.key) = down := if_pos linked
  simp only [HomeAgent.homeCleanup]
  rw [isDown]
  by_cases tunnelled : 0 < b.tunnel
  · obtain ⟨ctl, kernel, p', deleted, after⟩ :=
      @Balanced.tunnelDel leads orderly down _ rest stopped tunnelled (fun home => by cases home)
        ⟨b, basAccepted, []⟩ rfl rfl
    have gone := @Balanced.forget leads orderly _ _ rest after (lt_irrefl 0) rfl
    rw [if_pos tunnelled]
    simp only at deleted
    rw [deleted]
    exact ⟨_, rfl, gone, rfl, rfl, rfl⟩
  · rw [if_neg tunnelled]
    exact ⟨down, rfl, @Balanced.forget leads orderly _ _ rest stopped tunnelled rfl, rfl, rfl,
      rfl⟩

theorem Balanced.write (balanced : Balanced leads orderly s (b :: rest) (some b.key))
    (b' : Bcentry) (key : b'.key = b.key) (link : b'.link = b.link)
    (tunnel : b'.tunnel = b.tunnel) (mnps : b'.mobNetPrefixes = b.mobNetPrefixes)
    (cleanup : b.cleanup = true → b'.cleanup = true)
    (home : b.type = .homereg → b'.type = .homereg)
    (out : b'.type = .homereg →
      s.kernel.routes (outRoute b.link b.ourAddr b.peerAddr) = true)
    (llocal : orderly → b.cleanup = true → b.flags.llocal = true → b'.flags.llocal = true)
    (kind : Kind (some b'.key) b') : Balanced leads orderly s (b' :: rest) (some b'.key) where
  nodup := by
    rw [List.map_cons, key]
    exact balanced.nodup
  kinds := by
    intro c member
    rcases List.mem_cons.mp member with rfl | inRest
    · exact kind
    · rw [key]
      exact balanced.kinds c (List.mem_cons_of_mem _ inRest)
  counted := by
    rw [List.flatMap_cons, Bcentry.refs, tunnel]
    exact balanced.counted
  ends := by
    intro c member positive
    rcases List.mem_cons.mp member with rfl | inRest
    · obtain ⟨r, is, -⟩ := balanced.ends b List.mem_cons_self (tunnel ▸ positive)
      have addrs := key
      simp only [Bcentry.key, BcKey.mk.injEq] at addrs
      refine ⟨r, ?_, fun _ notBusy => absurd rfl notBusy⟩
      rw [tunnel, is, addrs.1]
    · rw [key]
      exact balanced.ends c (List.mem_cons_of_mem _ inRest) positive
  kernel := by
    refine ⟨balanced.kernel.routed.write key link tunnel cleanup out llocal, ?_⟩
    exact fun ordered => (balanced.kernel.mnps ordered).relabel tunnel mnps
  mpa := by
    intro key' started
    obtain ⟨c, member, isKey, isHome⟩ := balanced.mpa key' started
    rcases List.mem_cons.mp member with rfl | inRest
    · exact ⟨b', List.mem_cons_self, key.trans isKey, home isHome⟩
    · exact ⟨c, List.mem_cons_of_mem _ inRest, isKey, isHome⟩

theorem Balanced.settle (balanced : Balanced leads orderly s (b :: rest) (some b.key))
    (kind : Kind none b)
    (hoaSet : b.type = .homereg → s.kernel.routes (hoaRoute b.tunnel b.peerAddr) = true)
    (leadsTo : leads → 0 < b.tunnel → s.ctl.endsAt b.tunnel = some (b.ourAddr, b.coa)) :
    Balanced leads orderly s (b :: rest) none where
  nodup := balanced.nodup
  kinds := by
    intro c member
    rcases List.mem_cons.mp member with rfl | inRest
    · exact kind
    · exact (balanced.kinds c member).drop (balanced.keys c inRest)
  counted := balanced.counted
  ends := by
    intro c member positive
    obtain ⟨r, is, toCoa⟩ := balanced.ends c member positive
    refine ⟨r, is, fun leading _ => ?_⟩
    rcases List.mem_cons.mp member with rfl | inRest
    · have here := leadsTo leading positive
      rw [is, Option.some.injEq, Prod.mk.injEq] at here
      exact here.2
    · exact toCoa leading fun same => balanced.keys c inRest (Option.some.inj same).symm
  kernel := ⟨balanced.kernel.routed.settle balanced.keys hoaSet, balanced.kernel.mnps⟩
  mpa := balanced.mpa

theorem Balanced.rewrite (balanced : Balanced leads orderly s (b :: rest) none)
    (notHome : b.type ≠ .homereg) (b' : Bcentry) (key : b'.key = b.key) (link : b'.link = b.link)
    (tunnel : b'.tunnel = b.tunnel) (mnps : b'.mobNetPrefixes = b.mobNetPrefixes)
    (cleanup : b'.cleanup = b.cleanup) (staysNotHome : b'.type ≠ .homereg)
    (notDad : b'.type ≠ .dad)
    (cached : b'.type = .cached ∨ b'.type = .cacheDying → b'.flags.home = false) :
    Balanced leads orderly s (b' :: rest) none := by
  have kind := balanced.kinds b List.mem_cons_self
  obtain ⟨noTunnel, noCleanup⟩ := kind.idle notHome (Option.some_ne_none _).symm
  have noMnps := kind.plain (Option.some_ne_none _).symm noCleanup
  have notCleans : ∀ c : Bcentry, c.cleanup = b.cleanup → ¬ c.cleanup = true := by
    intro c same
    rw [same, noCleanup]
    exact Bool.false_ne_true
  have idle : Kind none b' :=
    ⟨fun home => absurd home staysNotHome, fun either => either.elim
      (fun cleans => absurd cleans (notCleans b' cleanup)) (fun dad => absurd dad notDad),
      fun cleans => absurd cleans (notCleans b' cleanup),
      fun _ _ => ⟨tunnel.trans noTunnel, cleanup.trans noCleanup⟩,
      fun _ _ => mnps.trans noMnps, cached⟩
  have written := (balanced.hold (some b.key)).write b' key link tunnel mnps
    (fun cleans => absurd cleans (notCleans b rfl)) (fun home => absurd home notHome)
    (fun home => absurd home staysNotHome) (fun _ cleans => absurd cleans (notCleans b rfl))
    (idle.hold _)
  refine written.settle idle (fun home => absurd home staysNotHome) ?_
  intro _ positive
  exact absurd (tunnel.trans noTunnel ▸ positive) (lt_irrefl 0)

theorem Balanced.recount (balanced : Balanced leads orderly s (b :: rest) none) (unreach : Nat) :
    Balanced leads orderly s ({ b with unreach } :: rest) none := by
  have kind := balanced.kinds b List.mem_cons_self
  have same : Kind none { b with unreach } :=
    ⟨kind.home, kind.link, kind.cleans, kind.idle, kind.plain, kind.cached⟩
  have written := (balanced.hold (some b.key)).write { b with unreach } rfl rfl rfl rfl
    (fun cleans => cleans) (fun home => home)
    (fun home => balanced.kernel.routed.outAll b List.mem_cons_self home)
    (fun _ _ llocal => llocal) (same.hold _)
  refine written.settle same ?_ ?_
  · intro home
    exact balanced.kernel.routed.hoaAll b List.mem_cons_self home (Option.some_ne_none _).symm
  · intro leading positive
    obtain ⟨r, is, toCoa⟩ := balanced.ends b List.mem_cons_self positive
    rw [is, toCoa leading (Option.some_ne_none _).symm]

end Worker

section Tunnel
variable {leads orderly : Prop} {conf : HaRegConf} {a : Answers} {s : HomeAgent} {b : Bcentry}
  {rest : List Bcentry} {p : HomeTnlOpsParm}

/-- `tunnel_add` for an entry without one: it has a tunnel to the care-of address with
its routes, or is as it was. -/
theorem Balanced.tunnelAdd (balanced : Balanced leads orderly s (b :: rest) (some b.key))
    (noTunnel : b.tunnel = 0) (notHome : b.type ≠ .homereg)
    (fresh : ∀ i ∈ a.tunnel.created.ifindex, NewIndex s.ctl i)
    (peer : p.bce.peerAddr = b.peerAddr) (tunnel : p.bce.tunnel = 0)
    (follows : orderly → Follows conf a p.mobNetPrefixes rest) (coa : In6Addr) :
    (∃ ctl kernel p', tunnelAddOps (homeTnlOpsAdd conf a) s.ctl a.tunnel.created b.ourAddr coa 0
        (s.kernel, p) = .ok (ctl, (kernel, p'), -1) ∧ p'.bce = p.bce ∧
      Balanced leads orderly { s with ctl, kernel } (b :: rest) (some b.key)) ∨
    ∃ i ctl kernel, 0 < i ∧ tunnelAddOps (homeTnlOpsAdd conf a) s.ctl a.tunnel.created b.ourAddr
        coa 0 (s.kernel, p) =
          .ok (ctl, (kernel, { p with bce := { p.bce with tunnel := i } }), i) ∧
      ctl.endsAt i = some (b.ourAddr, coa) ∧ kernel.routes (hoaRoute i b.peerAddr) = true ∧
      Balanced leads orderly { s with ctl, kernel }
        ({ b with tunnel := i, mobNetPrefixes := p.mobNetPrefixes } :: rest) (some b.key) := by
  have kind := balanced.kinds b List.mem_cons_self
  have noTunnel' : ¬ 0 < b.tunnel := by
    rw [noTunnel]
    exact lt_irrefl 0
  have counted := balanced.counted
  rw [refs_cons_none noTunnel'] at counted
  have sameBce : ∀ b : Bcentry, b.tunnel = 0 → { b with tunnel := 0 } = b := by
    intro b isZero
    rw [← isZero]
  rcases tunnelAddOps_cases counted fresh (homeTnlOpsAdd conf a) b.ourAddr coa 0 (s.kernel, p) with
    ⟨ctl, failed, after, ends⟩ |
      ⟨i, c₁, c₂, positive, asks, after, here, ends, back, backEnds⟩
  · refine Or.inl ⟨ctl, s.kernel, p, failed, rfl,
      balanced.retunnel b rfl (fun home => home) kind ?_ ?_ ?_ balanced.kernel⟩
    · rw [refs_cons_none noTunnel']
      exact after
    · exact fun positive => absurd positive noTunnel'
    · exact fun i _ => congrFun ends i
  · have apart := balanced.apart positive here
      fun j member => ends j (List.mem_append_left _ member)
    have start := balanced.kernel
    rw [← sameBce b noTunnel] at start
    rw [asks, homeTnlOpsAdd, if_neg (ne_of_gt positive)]
    rcases start.tnlAdd positive apart peer follows 0 with
      ⟨k', added, isSet, kernelOk⟩ | ⟨k', p', undone, isBce, kernelOk, -⟩
    · rw [added]
      refine Or.inr ⟨i, c₁, k', positive, rfl, here, isSet,
        balanced.retunnel { b with tunnel := i, mobNetPrefixes := p.mobNetPrefixes } rfl
          (fun home => home) ?_ ?_ ?_ ends kernelOk⟩
      · exact ⟨fun home => absurd home notHome, kind.link, kind.cleans,
          fun _ notBusy => absurd rfl notBusy, fun notBusy => absurd rfl notBusy, kind.cached⟩
      · rw [refs_cons positive]
        exact after
      · exact fun _ => ⟨coa, here⟩
    · rw [sameBce b noTunnel] at kernelOk
      rw [undone]
      refine Or.inl ⟨c₂, k', p', rfl, isBce.trans (sameBce p.bce tunnel),
        balanced.retunnel b rfl (fun home => home) kind ?_ ?_ backEnds kernelOk⟩
      · rw [refs_cons_none noTunnel']
        exact back
      · exact fun positive => absurd positive noTunnel'

/-- `tunnel_mod` for an entry with a tunnel, which leads to the care-of address
afterwards if the end of it can be moved. -/
theorem Balanced.tunnelMod (balanced : Balanced leads orderly s (b :: rest) (some b.key))
    (linked : 0 < b.tunnel) (cleans : b.cleanup = true)
    (hoaSet : s.kernel.routes (hoaRoute b.tunnel b.peerAddr) = true)
    (node : a.tunnel.node = true) (fresh : ∀ i ∈ a.tunnel.created.ifindex, NewIndex s.ctl i)
    (peer : p.bce.peerAddr = b.peerAddr) (tunnel : p.bce.tunnel = b.tunnel)
    (mnps : p.bce.mobNetPrefixes = b.mobNetPrefixes)
    (follows : orderly → Follows conf a p.mobNetPrefixes rest) (coa : In6Addr) :
    (∃ ctl kernel p', tunnelModOps (homeTnlOpsChg conf a) s.ctl a.tunnel b.tunnel b.ourAddr coa 0
        (s.kernel, p) = .ok (ctl, (kernel, p'), -1) ∧ p'.bce = p.bce ∧
      Balanced leads orderly { s with ctl, kernel } (b :: rest) (some b.key)) ∨
    ∃ i ctl kernel, 0 < i ∧ tunnelModOps (homeTnlOpsChg conf a) s.ctl a.tunnel b.tunnel b.ourAddr
        coa 0 (s.kernel, p) =
          .ok (ctl, (kernel, { p with bce := { p.bce with tunnel := i } }), i) ∧
      (Movable s.ctl b.tunnel b.ourAddr coa → ctl.endsAt i = some (b.ourAddr, coa)) ∧
      kernel.routes (hoaRoute i b.peerAddr) = true ∧
      Balanced leads orderly { s with ctl, kernel }
        ({ b with tunnel := i, mobNetPrefixes := p.mobNetPrefixes } :: rest) (some b.key) := by
  have kind := balanced.kinds b List.mem_cons_self
  obtain ⟨r, before, -⟩ := balanced.ends b List.mem_cons_self linked
  have counted := balanced.counted
  rw [refs_cons linked] at counted
  -- the entry with its tunnel, or with another one
  have kinds : ∀ i, 0 < i →
      Kind (some b.key) { b with tunnel := i, mobNetPrefixes := p.mobNetPrefixes } := by
    intro i positive
    exact ⟨fun _ => ⟨positive, cleans⟩, kind.link, kind.cleans,
      fun _ notBusy => absurd rfl notBusy, fun notBusy => absurd rfl notBusy, kind.cached⟩
  rcases tunnelModOps_cases counted node fresh (homeTnlOpsChg conf a) b.ourAddr coa 0
      (s.kernel, p) with
    ⟨ctl, failed, after, ends⟩ |
      ⟨j, c₁, c₂, positive, -, asks, after, here, ends, back, backEnds⟩ |
      ⟨ctl, asks, after, ends, here⟩
  · refine Or.inl ⟨ctl, s.kernel, p, failed, rfl,
      balanced.retunnel b rfl (fun home => home) kind ?_ ?_ ?_ balanced.kernel⟩
    · rw [refs_cons linked]
      exact after
    · exact fun _ => ⟨r, by rw [ends, before]⟩
    · exact fun i _ => congrFun ends i
  · have apart : ∀ c ∈ rest, c.tunnel = b.tunnel ∨ c.tunnel = j → c.peerAddr ≠ b.peerAddr := by
      intro c member either
      rcases either with old | new
      · exact balanced.apart linked before (fun _ _ => rfl) c member old
      · exact balanced.apart positive here
          (fun j member => ends j (List.mem_append_left _ member)) c member new
    rw [asks, homeTnlOpsChg, if_neg (by omega)]
    rcases balanced.kernel.tnlChg linked hoaSet positive apart peer tunnel mnps follows with
      ⟨k', changed, isSet, kernelOk⟩ | ⟨k', p', refused, isBce, routed, notOrderly⟩
    · rw [changed]
      refine Or.inr ⟨j, c₁, k', positive, rfl, fun _ => here, isSet,
        balanced.retunnel { b with tunnel := j, mobNetPrefixes := p.mobNetPrefixes } rfl
          (fun home => home) (kinds j positive) ?_ (fun _ => ⟨coa, here⟩) ends kernelOk⟩
      rw [refs_cons positive]
      exact after
    · rw [refused]
      refine Or.inl ⟨c₂, k', p', rfl, isBce,
        balanced.retunnel b rfl (fun home => home) kind ?_ ?_
          (fun k member => backEnds k (List.mem_cons_of_mem _ member))
          ⟨routed, fun ordered => absurd ordered notOrderly⟩⟩
      · rw [refs_cons linked]
        exact back
      · exact fun _ => ⟨r, by rw [backEnds _ List.mem_cons_self, before]⟩
  · have apart : ∀ c ∈ rest, c.tunnel = b.tunnel ∨ c.tunnel = b.tunnel →
        c.peerAddr ≠ b.peerAddr := fun c member either =>
      balanced.apart linked before (fun _ _ => rfl) c member (or_self_iff.mp either)
    have stillHere : ∃ r, ctl.endsAt b.tunnel = some (b.ourAddr, r) := by
      rcases here with moved | ⟨stays, -⟩
      · exact ⟨coa, moved⟩
      · exact ⟨r, by rw [stays, before]⟩
    rw [asks, homeTnlOpsChg, if_neg (by omega)]
    rcases balanced.kernel.tnlChg linked hoaSet linked apart peer tunnel mnps follows with
      ⟨k', changed, isSet, kernelOk⟩ | ⟨k', p', refused, isBce, routed, notOrderly⟩
    · rw [changed]
      refine Or.inr ⟨b.tunnel, ctl, k', linked, rfl, ?_, isSet,
        balanced.retunnel { b with mobNetPrefixes := p.mobNetPrefixes } rfl
          (fun home => home) (kinds b.tunnel linked) ?_ (fun _ => stillHere) ends kernelOk⟩
      · intro movable
        rcases here with moved | ⟨-, notMovable⟩
        · exact moved
        · exact absurd movable notMovable
      · rw [@refs_cons { b with mobNetPrefixes := p.mobNetPrefixes } rest linked]
        exact after
    · rw [refused]
      refine Or.inl ⟨ctl, k', p', rfl, isBce,
        balanced.retunnel b rfl (fun home => home) kind ?_ (fun _ => stillHere) ends
          ⟨routed, fun ordered => absurd ordered notOrderly⟩⟩
      rw [refs_cons linked]
      exact after

end Tunnel

/-! ## The end of a worker -/

/-- An acknowledgement tells what is in the cache: what is refused is not bound, but for
a registration of the other kind and for the sequence number that the answer has. -/
def Told (s : HomeAgent) : Ack → Prop
  | .ba key bindCoa _ _ _ seqno lft =>
      if tsisset lft then
        ∃ b ∈ s.bc, b.key = key ∧ b.type = .homereg ∧ b.coa = bindCoa ∧ b.lifetime = lft ∧
          b.seqno = seqno
      else ∀ b ∈ s.bc, b.key ≠ key
  | .baErr key status seqno => ∀ b ∈ s.bc, b.key = key → b.type = .nonceBlock ∨
      status = basRegNotAllowed ∨ status = basSeqnoBad ∧ b.seqno = seqno

/-- What a worker leaves for a binding, with the others as they were. -/
structure Done (leads orderly : Prop) (s s' : HomeAgent) (key : BcKey) : Prop where
  balanced : Balanced leads orderly s' s'.bc none
  waiting : s'.waiting = s.waiting
  others : s'.without key = s.without key
  settled : ∀ c ∈ s'.bc, c.key = key → c.type ≠ .dad
  acked : ∃ acks, s'.acks = acks ++ s.acks ∧ ∀ ack ∈ acks, Told s' ack

section Ending
variable {leads orderly : Prop} {conf : HaRegConf} {a : Answers} {s s' s'' : HomeAgent}
  {b : Bcentry} {w : DadWait} {key : BcKey}

structure Deleted (leads orderly : Prop) (s s' : HomeAgent) (key : BcKey) : Prop where
  balanced : Balanced leads orderly s' s'.bc none
  waiting : s'.waiting = s.waiting
  cache : s'.bc = s.without key
  acks : s'.acks = s.acks

theorem without_without (cache : s'.bc = s.without key) : s'.without key = s.without key := by
  rw [HomeAgent.without, cache, List.filter_eq_self]
  intro c member
  exact decide_eq_true (mem_without.mp member).2

theorem Deleted.absent (deleted : Deleted leads orderly s s' key) :
    ∀ c ∈ s'.bc, c.key ≠ key := by
  intro c member
  rw [deleted.cache] at member
  exact (mem_without.mp member).2

theorem Deleted.done (deleted : Deleted leads orderly s s' key) :
    Done leads orderly s s' key :=
  ⟨deleted.balanced, deleted.waiting, without_without deleted.cache,
    fun c member isKey => absurd isKey (deleted.absent c member),
    [], deleted.acks, fun _ member => absurd member List.not_mem_nil⟩

/-- `bce_delete` of an entry in hand that does not stay for its nonce. -/
theorem InHand.bceDelete (hand : InHand leads orderly s b)
    (tunnelled : 0 < b.tunnel → b.cleanup = true) {minlft : Bool}
    (goes : ¬ ((b.type = .cached ∨ b.type = .cacheDying) ∧ minlft = true)) :
    ∃ s', s.bceDelete b minlft = .ok s' ∧ Deleted leads orderly s s' b.key := by
  simp only [HomeAgent.bceDelete, if_neg goes]
  cases cleans : b.cleanup with
  | true =>
      obtain ⟨s₁, cleaned, balanced, cache, waiting, acks⟩ := homeCleanup_ok hand cleans
      have without : s₁.without b.key = s.without b.key := by
        rw [HomeAgent.without, cache]
        rfl
      simp only [if_true, cleaned, ok_bind]
      refine ⟨_, rfl, ?_, waiting, without, acks⟩
      simp only [without]
      exact balanced.frame rfl rfl rfl rfl
  | false =>
      have noTunnel : ¬ 0 < b.tunnel := by
        intro linked
        rw [tunnelled linked] at cleans
        cases cleans
      simp only [Bool.false_eq_true, if_false, ok_bind]
      exact ⟨_, rfl, (Balanced.forget hand noTunnel cleans).frame rfl rfl rfl rfl, rfl, rfl, rfl⟩

theorem Balanced.bcacheDelete (balanced : Balanced leads orderly s s.bc none) (key : BcKey) :
    ∃ s', s.bcacheDelete key = .ok s' ∧ Deleted leads orderly s s' key := by
  simp only [HomeAgent.bcacheDelete]
  cases found : s.bcacheGet key with
  | none =>
      have absent := (without_of_absent (bcacheGet_none found)).symm
      exact ⟨s, rfl, balanced, rfl, absent, rfl⟩
  | some b =>
      obtain ⟨member, rfl⟩ := bcacheGet_some found
      have kind := balanced.kinds b member
      refine (balanced.inHand found).bceDelete ?_ (fun stays => Bool.false_ne_true stays.2)
      intro linked
      by_cases home : b.type = .homereg
      · exact (kind.home home).2
      · rw [(kind.idle home (Option.some_ne_none _).symm).1] at linked
        exact absurd linked (lt_irrefl 0)

theorem Told.congr {ack : Ack} (told : Told s ack) (cache : s'.bc = s.bc) : Told s' ack := by
  cases ack with
  | ba key bindCoa status keym mobRtr seqno lft =>
      simp only [Told, cache]
      exact told
  | baErr key status seqno =>
      simp only [Told, cache]
      exact told

theorem Done.since (done : Done leads orderly s' s'' key)
    (others : s'.without key = s.without key) (waiting : s'.waiting = s.waiting)
    (acks : s'.acks = s.acks) : Done leads orderly s s'' key := by
  obtain ⟨new, isAcks, allTold⟩ := done.acked
  refine ⟨done.balanced, done.waiting.trans waiting, done.others.trans others, done.settled, new,
    ?_, allTold⟩
  rw [isAcks, acks]

theorem Done.answer (done : Done leads orderly s s' key) {ack : Ack} (told : Told s' ack) :
    Done leads orderly s { s' with acks := ack :: s'.acks } key := by
  obtain ⟨acks, isAcks, allTold⟩ := done.acked
  refine ⟨done.balanced.frame rfl rfl rfl rfl, done.waiting, done.others, done.settled,
    ack :: acks, ?_, ?_⟩
  · simp only [isAcks, List.cons_append]
  · intro other member
    rcases List.mem_cons.mp member with rfl | earlier
    · exact told.congr rfl
    · exact (allTold other earlier).congr rfl

theorem Deleted.sendBaErr {args : HaRecvBuArgs} (deleted : Deleted leads orderly s s' key)
    (isKey : args.key = key) (status : Int) (seqno : UInt16) :
    Done leads orderly s (s'.sendBaErr args status seqno) key := by
  rw [HomeAgent.sendBaErr]
  split
  · exact deleted.done
  · refine deleted.done.answer ?_
    intro b member same
    exact absurd (same.trans isKey) (deleted.absent b member)

theorem Done.startMpa (done : Done leads orderly s s' key) (member : b ∈ s'.bc)
    (home : b.type = .homereg) :
    Done leads orderly s (s'.mpdStartMpa conf b.key) key := by
  rw [HomeAgent.mpdStartMpa]
  split
  · have balanced := done.balanced
    obtain ⟨acks, isAcks, allTold⟩ := done.acked
    refine ⟨⟨balanced.nodup, balanced.kinds, balanced.counted, balanced.ends, balanced.kernel, ?_⟩,
      done.waiting, done.others, done.settled, acks, isAcks, ?_⟩
    · intro key' started
      simp only [Function.update_apply] at started
      split at started
      · rename_i same
        exact ⟨b, member, same.symm, home⟩
      · exact balanced.mpa key' started
    · exact fun ack earlier => (allTold ack earlier).congr rfl
  · exact done

theorem InHand.refuseBce (hand : InHand leads orderly s b)
    (tunnelled : 0 < b.tunnel → b.cleanup = true) (key : b.key = w.key) (status : Int) :
    ∃ s', s.refuseBce b w status = .ok s' ∧ Done leads orderly s s' b.key := by
  have found : (s.put b).bcacheGet w.args.key = some b := by
    change (s.put b).bcacheGet w.key = some b
    rw [← key]
    exact bcacheGet_put s b
  obtain ⟨s₁, deleted, gone⟩ := hand.put.bceDelete tunnelled
    fun stays => Bool.false_ne_true stays.2
  have since : Deleted leads orderly s s₁ b.key :=
    ⟨gone.balanced, gone.waiting, gone.cache.trans (put_without s b), gone.acks⟩
  simp only [HomeAgent.refuseBce, HomeAgent.refuse, HomeAgent.bcacheDelete, found, deleted, ok_bind]
  exact ⟨_, rfl, since.sendBaErr key.symm _ _⟩

theorem InHand.finish (hand : InHand leads orderly s b) (home : b.type = .homereg)
    (hoaSet : s.kernel.routes (hoaRoute b.tunnel b.peerAddr) = true)
    (leadsTo : leads → s.ctl.endsAt b.tunnel = some (b.ourAddr, b.coa)) (key : b.key = w.key)
    (written : b.coa = w.args.bindCoa ∧ b.lifetime = w.lft ∧ b.seqno = w.seqno) (new : Bool) :
    ∃ s', HomeAgent.finish conf s b w new = .ok s' ∧ Done leads orderly s s' b.key := by
  let keym := conf.useKeymgm b.peerAddr b.ourAddr && w.args.keym
  let kept : Bcentry := { b with flags := { b.flags with keym } }
  have kind := hand.kinds b List.mem_cons_self
  obtain ⟨linked, cleans⟩ := kind.home home
  have set_ : Kind none kept :=
    Kind.registered home linked cleans (kind.link (Or.inl cleans))
  have written_ : InHand leads orderly s kept :=
    hand.write kept rfl rfl rfl rfl (fun _ => cleans) (fun home => home)
      (fun _ => hand.kernel.routed.outAll b List.mem_cons_self home) (fun _ _ llocal => llocal)
      (set_.hold _)
  have again : InHand leads orderly (s.put kept) kept := written_.put
  simp only [HomeAgent.finish]
  cases lives : tsisset w.lft with
  | true =>
      have balanced : Balanced leads orderly (s.put kept) (s.put kept).bc none := by
        have settled := again.settle set_ (fun _ => hoaSet) (fun leading _ => leadsTo leading)
        rw [put_without] at settled
        exact settled
      have done : Done leads orderly s (s.put kept) b.key := by
        refine ⟨balanced, rfl, put_without s kept, ?_, [], rfl,
          fun _ member => absurd member List.not_mem_nil⟩
        intro c member isKey
        rcases List.mem_cons.mp member with rfl | other
        · intro dad
          rw [home] at dad
          cases dad
        · exact absurd isKey (mem_without.mp other).2
      have answered : Done leads orderly s (if w.args.flags.skipBa then s.put kept else
          { s.put kept with
            acks := .ba w.key w.args.bindCoa w.status keym
              (w.status < basUnspecified && w.args.bu.isMobRtr) w.seqno w.lft ::
                (s.put kept).acks }) b.key := by
        split
        · exact done
        · refine done.answer ?_
          simp only [Told, lives, if_true]
          exact ⟨kept, List.mem_cons_self, key, home, written⟩
      simp only [if_true, ok_bind, Bool.and_true]
      refine ⟨_, rfl, ?_⟩
      split
      · refine @Done.startMpa leads orderly conf s _ kept b.key answered ?_ home
        split
        · exact List.mem_cons_self
        · exact List.mem_cons_self
      · exact answered
  | false =>
      have found : (s.put kept).bcacheGet b.key = some kept := bcacheGet_put s kept
      obtain ⟨s₁, deleted, gone⟩ := again.bceDelete (fun _ => cleans)
        fun stays => Bool.false_ne_true stays.2
      have since : Deleted leads orderly s s₁ b.key :=
        ⟨gone.balanced, gone.waiting, gone.cache.trans (put_without s kept), gone.acks⟩
      have dropped : (s.put { b with flags := { b.flags with
          keym := conf.useKeymgm b.peerAddr b.ourAddr && w.args.keym } }).bcacheDelete b.key =
            .ok s₁ := by
        simp only [HomeAgent.bcacheDelete, kept, keym] at found deleted ⊢
        simp only [found, deleted]
      simp only [dropped, ok_bind, Bool.false_eq_true, if_false, Bool.and_false]
      refine ⟨_, rfl, ?_⟩
      split
      · exact since.done
      · refine since.done.answer ?_
        simp only [Told, lives, Bool.false_eq_true, if_false]
        rw [← key]
        exact since.absent

end Ending

def HaRecvBuArgs.mnps (conf : HaRegConf) (args : HaRecvBuArgs) : List PrefixListEntry :=
  args.mobNetPrefixes.getD (conf.getMnps args.bu.dst)

section Steps
variable {leads orderly : Prop} {conf : HaRegConf} {a : Answers} {s s' : HomeAgent}
  {b : Bcentry} {w : DadWait} {key : BcKey}

theorem bindMnps_ok {args : HaRecvBuArgs} {lft : Timespec} {nemoType nemoType' : NemoType}
    {mnps : List PrefixListEntry}
    (bound : HomeAgent.bindMnps conf args lft a nemoType = .ok (mnps, nemoType')) :
    mnps = args.mnps conf ∨ mnps = [] := by
  simp only [HomeAgent.bindMnps] at bound
  split at bound
  · left
    rw [HaRecvBuArgs.mnps]
    split at bound
    · rename_i explicit isExplicit
      split at bound
      · rw [isExplicit, Option.getD_some]
        exact (Prod.mk.inj (Except.ok.inj bound)).1.symm
      · cases bound
    · rename_i isImplicit
      split at bound
      · rw [isImplicit, Option.getD_none]
        exact (Prod.mk.inj (Except.ok.inj bound)).1.symm
      · cases bound
  · right
    exact (Prod.mk.inj (Except.ok.inj bound)).1.symm

theorem follows_bound {args : HaRecvBuArgs} {lft : Timespec} {nemoType nemoType' : NemoType}
    {mnps : List PrefixListEntry} {rest : List Bcentry}
    (follows : Follows conf a (args.mnps conf) rest)
    (bound : HomeAgent.bindMnps conf args lft a nemoType = .ok (mnps, nemoType')) :
    Follows conf a mnps rest := by
  rcases bindMnps_ok bound with rfl | rfl
  · exact follows
  · exact ⟨follows.obliging, Proper.nil, fun c _ net inKeys => absurd inKeys List.not_mem_nil⟩

theorem Balanced.rekernel {bc : List Bcentry} {busy : Option BcKey}
    (balanced : Balanced leads orderly s bc busy) {kernel : Kernel}
    (ok : KernelOk orderly kernel bc busy) : Balanced leads orderly { s with kernel } bc busy :=
  ⟨balanced.nodup, balanced.kinds, balanced.counted, balanced.ends, ok, balanced.mpa⟩

theorem InHand.addOut (hand : InHand leads orderly s b) (cleans : b.cleanup = true)
    {kernel : Kernel} (proxies : kernel.proxies = s.kernel.proxies)
    (routes : ∀ other, kernel.routes other =
      if other = outRoute b.link b.ourAddr b.peerAddr then true else s.kernel.routes other) :
    InHand leads orderly { s with kernel } b := by
  refine Balanced.rekernel hand ⟨hand.kernel.routed.addOut cleans proxies routes, ?_⟩
  intro ordered
  refine (hand.kernel.mnps ordered).congr ?_
  intro route isMnp
  rw [routes, if_neg]
  rintro rfl
  exact not_isMnp_outRoute _ _ _ isMnp

theorem InHand.proxyNdStart (hand : InHand leads orderly s b) (cleans : b.cleanup = true)
    (takes takesLl : Bool) :
    InHand leads orderly { s with kernel := (s.kernel.proxyNdStart b.link b.peerAddr
      b.flags.llocal takes takesLl).1 } b ∧
    (s.kernel.proxyNdStart b.link b.peerAddr b.flags.llocal takes takesLl).1.routes =
      s.kernel.routes := by
  obtain ⟨same, proxied⟩ :=
    proxyNdStart_cases s.kernel b.link b.peerAddr b.flags.llocal takes takesLl
  refine ⟨Balanced.rekernel hand ⟨hand.kernel.routed.addProxies cleans same proxied, ?_⟩, same⟩
  intro ordered
  exact (hand.kernel.mnps ordered).congr fun route _ => congrFun same route

theorem register_ok (balanced : Balanced leads orderly s s.bc none)
    (found : s.bcacheGet key = some b) (dad : b.type = .dad) (isKey : b.key = w.key)
    (coa : b.coa = w.args.bindCoa) (fresh : ∀ i ∈ a.tunnel.created.ifindex, NewIndex s.ctl i)
    (follows : orderly → Follows conf a (w.args.mnps conf) (s.without key)) :
    ∃ s', HomeAgent.register conf s b w a = .ok s' ∧ Done leads orderly s s' key := by
  obtain ⟨member, rfl⟩ := bcacheGet_some found
  have hand := balanced.inHand found
  have kind := balanced.kinds b member
  have notHome : b.type ≠ .homereg := by
    rw [dad]
    exact fun same => by cases same
  obtain ⟨noTunnel, noCleanup⟩ := kind.idle notHome (Option.some_ne_none _).symm
  have noMnps := kind.plain (Option.some_ne_none _).symm noCleanup
  have linked := kind.link (Or.inr dad)
  have notLinked : ¬ 0 < b.tunnel := by
    rw [noTunnel]
    exact lt_irrefl 0
  have notCleans : ¬ b.cleanup = true := by
    rw [noCleanup]
    exact Bool.false_ne_true
  simp only [HomeAgent.register]
  cases bound : HomeAgent.bindMnps conf w.args w.lft a b.nemoType with
  | error status => exact hand.refuseBce (fun positive => absurd positive notLinked) isKey status
  | ok result =>
      obtain ⟨mnps, nemoType⟩ := result
      rcases @Balanced.tunnelAdd leads orderly conf a s b _ ⟨b.renewed w nemoType, w.status, mnps⟩
          hand noTunnel notHome fresh rfl noTunnel
          (fun ordered => follows_bound (follows ordered) bound) w.args.bindCoa with
        ⟨ctl, kernel, p, failed, isBce, back⟩ | ⟨i, ctl, kernel, positive, added, here, isSet, made⟩
      · have renewed := back.write (b.renewed w nemoType) rfl rfl rfl rfl
          (fun cleans => absurd cleans notCleans) (fun home => absurd home notHome)
          (fun home => absurd home notHome) (fun _ cleans => absurd cleans notCleans)
          (Kind.dad dad linked)
        have inHand : InHand leads orderly { s with ctl, kernel } p.bce := by
          rw [isBce]
          exact renewed
        have sameKey : p.bce.key = b.key := by
          rw [isBce]
          rfl
        have idle : 0 < p.bce.tunnel → p.bce.cleanup = true := by
          rw [isBce]
          exact fun positive => absurd positive notLinked
        obtain ⟨s', refused, done⟩ :=
          inHand.refuseBce idle (sameKey.trans isKey) (HomeAgent.tnlStatus p)
        simp only [failed, ok_bind, Int.reduceNeg, Int.reduceLT, if_true]
        exact ⟨s', refused, sameKey ▸ done.since rfl rfl rfl⟩
      · have notNegative : ¬ i < 0 := by omega
        let bce : Bcentry := { b.renewed w nemoType with
          tunnel := i, mobNetPrefixes := mnps ++ b.mobNetPrefixes, cleanup := true }
        have sameMnps : bce.mobNetPrefixes = mnps := by
          change mnps ++ b.mobNetPrefixes = mnps
          rw [noMnps, List.append_nil]
        have set_ : InHand leads orderly { s with ctl, kernel } bce :=
          made.write bce rfl rfl rfl sameMnps (fun _ => rfl) (fun home => absurd home notHome)
            (fun home => absurd home notHome) (fun _ cleans => absurd cleans notCleans)
            (Kind.dad dad linked)
        simp only [added, ok_bind, if_neg notNegative]
        rcases routeAdd_cases a.takes kernel (outRoute bce.link bce.ourAddr bce.peerAddr) with
          refused | ⟨-, -, k₁, taken, proxies, routes⟩
        · simp only [bce] at refused
          simp only [refused]
          obtain ⟨s', ended, done⟩ := set_.refuseBce (fun _ => rfl) isKey basInsufficient
          exact ⟨s', ended, done.since rfl rfl rfl⟩
        · have outOk : InHand leads orderly { s with ctl, kernel := k₁ } bce :=
            set_.addOut rfl proxies routes
          obtain ⟨proxyOk, sameRoutes⟩ := outOk.proxyNdStart rfl a.proxy a.proxyLl
          simp only [bce] at taken
          simp only [taken]
          cases started : k₁.proxyNdStart bce.link bce.peerAddr w.args.llocal a.proxy a.proxyLl with
          | mk k₂ done =>
              have isStarted : k₁.proxyNdStart bce.link bce.peerAddr bce.flags.llocal a.proxy
                a.proxyLl = (k₂, done) := started
              simp only [isStarted] at proxyOk sameRoutes
              cases done with
              | false =>
                  obtain ⟨s', ended, done⟩ := proxyOk.refuseBce (fun _ => rfl) isKey basInsufficient
                  exact ⟨s', ended, done.since rfl rfl rfl⟩
              | true =>
                  let home : Bcentry := { bce with type := .homereg }
                  have outSet : k₂.routes (outRoute bce.link bce.ourAddr bce.peerAddr) = true := by
                    rw [sameRoutes, routes, if_pos rfl]
                  have hoaSet : k₂.routes (hoaRoute i b.peerAddr) = true := by
                    rw [sameRoutes, routes, if_neg (hoaRoute_ne_outRoute _ _ _ _ _)]
                    exact isSet
                  have bound : InHand leads orderly { s with ctl, kernel := k₂ } home :=
                    proxyOk.write home rfl rfl rfl rfl (fun _ => rfl)
                      (fun home => absurd home notHome) (fun _ => outSet)
                      (fun _ _ llocal => llocal) (Kind.registered rfl positive rfl linked)
                  obtain ⟨s', ended, done⟩ := @InHand.finish leads orderly conf _ home w bound rfl
                    hoaSet (fun _ => coa ▸ here) isKey ⟨coa, rfl, rfl⟩ true
                  exact ⟨s', ended, done.since rfl rfl rfl⟩

theorem renew_ok (balanced : Balanced leads orderly s s.bc none)
    (found : s.bcacheGet key = some b) (home : b.type = .homereg) (isKey : b.key = w.key)
    (node : a.tunnel.node = true) (fresh : ∀ i ∈ a.tunnel.created.ifindex, NewIndex s.ctl i)
    (movable : leads → Movable s.ctl b.tunnel b.ourAddr w.args.bindCoa)
    (follows : orderly → Follows conf a (w.args.mnps conf) (s.without key))
    (llocal : orderly → b.flags.llocal = true → w.args.llocal = true) :
    ∃ s', HomeAgent.renew conf s b w a = .ok s' ∧ Done leads orderly s s' key := by
  obtain ⟨member, rfl⟩ := bcacheGet_some found
  have hand := balanced.inHand found
  have kind := balanced.kinds b member
  obtain ⟨linked, cleans⟩ := kind.home home
  have hoaSet := balanced.kernel.routed.hoaAll b member home (Option.some_ne_none _).symm
  simp only [HomeAgent.renew]
  cases bound : HomeAgent.bindMnps conf w.args w.lft a b.nemoType with
  | error status => exact hand.refuseBce (fun _ => cleans) isKey status
  | ok result =>
      obtain ⟨mnps, nemoType⟩ := result
      let bce : Bcentry := { b.renewed w nemoType with oldCoa := b.coa, coa := w.args.bindCoa }
      -- an entry that the worker writes its update into, with the tunnel that it has
      have kinds : ∀ i pl, 0 < i →
          Kind (some b.key) { bce with tunnel := i, mobNetPrefixes := pl } := by
        intro i pl positive
        exact Kind.registered home positive cleans (kind.link (Or.inl cleans))
      rcases @Balanced.tunnelMod leads orderly conf a s b _ ⟨bce, w.status, mnps⟩ hand linked cleans
          hoaSet node fresh rfl rfl rfl (fun ordered => follows_bound (follows ordered) bound)
          w.args.bindCoa with
        ⟨ctl, kernel, p, failed, isBce, back⟩ | ⟨i, ctl, kernel, positive, moved, here, isSet, made⟩
      · have renewed := back.write bce rfl rfl rfl rfl (fun cleans => cleans) (fun home => home)
          (fun _ => back.kernel.routed.outAll b List.mem_cons_self home)
          (fun ordered _ => llocal ordered) (kinds b.tunnel b.mobNetPrefixes linked)
        have inHand : InHand leads orderly { s with ctl, kernel } p.bce := by
          rw [isBce]
          exact renewed
        have sameKey : p.bce.key = b.key := by
          rw [isBce]
          rfl
        have idle : 0 < p.bce.tunnel → p.bce.cleanup = true := by
          rw [isBce]
          exact fun _ => cleans
        obtain ⟨s', refused, done⟩ :=
          inHand.refuseBce idle (sameKey.trans isKey) (HomeAgent.tnlStatus p)
        simp only [bce, Bcentry.renewed] at failed
        simp only [Bcentry.renewed, failed, ok_bind, Int.reduceNeg, Int.reduceLT, if_true]
        exact ⟨s', refused, sameKey ▸ done.since rfl rfl rfl⟩
      · have notNegative : ¬ i < 0 := by omega
        let set_ : Bcentry := { bce with tunnel := i, mobNetPrefixes := mnps }
        have inHand : InHand leads orderly { s with ctl, kernel } set_ :=
          made.write set_ rfl rfl rfl rfl (fun cleans => cleans) (fun home => home)
            (fun _ => made.kernel.routed.outAll _ List.mem_cons_self home)
            (fun ordered _ => llocal ordered) (kinds i mnps positive)
        obtain ⟨s', ended, done⟩ := @InHand.finish leads orderly conf _ set_ w inHand home isSet
          (fun leading => here (movable leading)) isKey ⟨rfl, rfl, rfl⟩ false
        simp only [bce, Bcentry.renewed] at moved
        simp only [Bcentry.renewed, moved, ok_bind, if_neg notNegative]
        exact ⟨s', ended, done.since rfl rfl rfl⟩

end Steps

end OaiPmip.HomeReg
