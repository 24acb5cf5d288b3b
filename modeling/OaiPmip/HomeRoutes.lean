import OaiPmip.HomeReg

/-!
# The routes of the home agent

Every binding that is set up has its routes and its entry for proxy neighbour
discovery, and nothing of these is there for anything else.  A worker that has an
entry in hand leaves the routes of the others alone, whatever the kernel refuses.
-/

set_option autoImplicit false

namespace OaiPmip.HomeReg

open OaiPmip.Cn OaiPmip.Ha OaiPmip.HaLifetimes OaiPmip.PrefixLists OaiPmip.TunnelCtl

theorem host_inj {a b : In6Addr} (same : prefixKey ⟨128, a⟩ = prefixKey ⟨128, b⟩) : a = b :=
  sameBits_all ((prefixKey_eq_iff _ _).mp same).2

theorem hoaRoute_inj {i j : Int} {a b : In6Addr} (same : hoaRoute i a = hoaRoute j b) :
    i = j ∧ a = b := by
  simp only [hoaRoute, Route.mk.injEq] at same
  exact ⟨same.1, host_inj same.2.2.2.2⟩

theorem outRoute_inj {i j : Int} {a b c d : In6Addr} (same : outRoute i a b = outRoute j c d) :
    i = j ∧ a = c ∧ b = d := by
  simp only [outRoute, Route.mk.injEq, Option.some.injEq] at same
  exact ⟨same.1, same.2.2.2.1, host_inj same.2.2.2.2⟩

theorem hoaRoute_ne_outRoute (i j : Int) (a b c : In6Addr) : hoaRoute i a ≠ outRoute j b c := by
  intro same
  simp only [hoaRoute, outRoute, Route.mk.injEq] at same
  cases same.2.1

@[simp] theorem routeDel_proxies (k : Kernel) (route : Route) :
    (k.routeDel route).proxies = k.proxies := rfl

theorem routeDel_routes (k : Kernel) (route other : Route) :
    (k.routeDel route).routes other = if other = route then false else k.routes other := by
  simp only [Kernel.routeDel, Function.update_apply]

theorem routeAdd_cases (takes : Route → Bool) (k : Kernel) (route : Route) :
    k.routeAdd takes route = (k, false) ∨ route.oif ≠ 0 ∧ takes route = true ∧
      ∃ k', k.routeAdd takes route = (k', true) ∧ k'.proxies = k.proxies ∧
        ∀ other, k'.routes other = if other = route then true else k.routes other := by
  simp only [Kernel.routeAdd]
  split
  · exact Or.inl rfl
  · rename_i linked
    split
    · rename_i taken
      exact Or.inr ⟨linked, taken, _, rfl, rfl, fun other => Function.update_apply _ _ _ _⟩
    · exact Or.inl rfl

def Route.IsMnp (route : Route) : Prop :=
  route.table = .mip6 ∧ route.prio = .mip6Fwd ∧ route.src = none

theorem mnpRoute_isMnp (i : Int) (p : PrefixListEntry) : (mnpRoute i p).IsMnp := ⟨rfl, rfl, rfl⟩

theorem not_isMnp_hoaRoute (i : Int) (a : In6Addr) : ¬ (hoaRoute i a).IsMnp := by
  rintro ⟨table, -, -⟩
  cases table

theorem not_isMnp_outRoute (i : Int) (a b : In6Addr) : ¬ (outRoute i a b).IsMnp := by
  rintro ⟨-, prio, -⟩
  cases prio

def Kernel.SameOther (k k' : Kernel) : Prop :=
  k'.proxies = k.proxies ∧ ∀ route, ¬ route.IsMnp → k'.routes route = k.routes route

theorem Kernel.SameOther.refl (k : Kernel) : k.SameOther k := ⟨rfl, fun _ _ => rfl⟩

theorem Kernel.SameOther.trans {k k' k'' : Kernel} (first : k.SameOther k')
    (second : k'.SameOther k'') : k.SameOther k'' :=
  ⟨second.1.trans first.1, fun route other => (second.2 route other).trans (first.2 route other)⟩

theorem sameOther_del (k : Kernel) (i : Int) (p : PrefixListEntry) :
    k.SameOther (k.routeDel (mnpRoute i p)) := by
  refine ⟨rfl, ?_⟩
  intro route other
  rw [routeDel_routes, if_neg]
  rintro rfl
  exact other (mnpRoute_isMnp i p)

theorem nemoHaDelMnpRoutes_other (new : List PrefixListEntry) (i : Int) (all : Bool) (k : Kernel)
    (old : List PrefixListEntry) : k.SameOther (nemoHaDelMnpRoutes new i all k old) := by
  induction old generalizing k with
  | nil => exact Kernel.SameOther.refl k
  | cons p rest ih =>
      simp only [nemoHaDelMnpRoutes]
      split
      · exact ih k
      · exact (sameOther_del k i p).trans (ih _)

theorem nemoHaAddMnpRoutes_other (takes : Route → Bool) (old : List PrefixListEntry) (i : Int)
    (all : Bool) (k : Kernel) (new : List PrefixListEntry) :
    k.SameOther (nemoHaAddMnpRoutes takes old i all k new).1 := by
  induction new generalizing k with
  | nil => exact Kernel.SameOther.refl k
  | cons p rest ih =>
      simp only [nemoHaAddMnpRoutes]
      split
      · exact ih k
      · rcases routeAdd_cases takes k (mnpRoute i p) with
          refused | ⟨-, -, k', added, proxies, routes⟩
        · rw [refused]
          exact Kernel.SameOther.refl k
        · rw [added]
          refine Kernel.SameOther.trans ⟨proxies, ?_⟩ (ih k')
          intro route other
          rw [routes, if_neg]
          rintro rfl
          exact other (mnpRoute_isMnp i p)

/-! ## The routes and proxy entries of a list of bindings

`busy` is the binding that a worker has in hand, whose routes need not all be
there. -/

structure Routed (orderly : Prop) (k : Kernel) (bc : List Bcentry) (busy : Option BcKey) :
    Prop where
  hoa : ∀ i a, k.routes (hoaRoute i a) = true → ∃ b ∈ bc, 0 < i ∧ b.tunnel = i ∧ b.peerAddr = a
  hoaAll : ∀ b ∈ bc, b.type = .homereg → busy ≠ some b.key →
    k.routes (hoaRoute b.tunnel b.peerAddr) = true
  out : ∀ l o a, k.routes (outRoute l o a) = true →
    ∃ b ∈ bc, b.cleanup = true ∧ b.link = l ∧ b.key = ⟨o, a⟩
  outAll : ∀ b ∈ bc, b.type = .homereg →
    k.routes (outRoute b.link b.ourAddr b.peerAddr) = true
  proxies : ∀ l a, k.proxies (l, a) = true →
    (∃ b ∈ bc, b.cleanup = true ∧ b.link = l ∧
      (a = b.peerAddr ∨ b.flags.llocal = true ∧ a = llocalAddr b.peerAddr)) ∨
    ¬ orderly ∧ ∃ peer, a = llocalAddr peer

section Routed
variable {orderly : Prop} {k k' : Kernel} {rest : List Bcentry} {b : Bcentry}
  {bc : List Bcentry} {busy : Option BcKey}

theorem Routed.congr (routed : Routed orderly k bc busy) (same : k.SameOther k') :
    Routed orderly k' bc busy where
  hoa := by
    intro i a present
    rw [same.2 _ (not_isMnp_hoaRoute i a)] at present
    exact routed.hoa i a present
  hoaAll := by
    intro b member home notBusy
    rw [same.2 _ (not_isMnp_hoaRoute _ _)]
    exact routed.hoaAll b member home notBusy
  out := by
    intro l o a present
    rw [same.2 _ (not_isMnp_outRoute l o a)] at present
    exact routed.out l o a present
  outAll := by
    intro b member home
    rw [same.2 _ (not_isMnp_outRoute _ _ _)]
    exact routed.outAll b member home
  proxies := by
    intro l a present
    rw [same.1] at present
    exact routed.proxies l a present

theorem Routed.perm {bc' : List Bcentry} (routed : Routed orderly k bc busy)
    (same : bc.Perm bc') : Routed orderly k bc' busy where
  hoa := by
    intro i a present
    obtain ⟨b, member, is⟩ := routed.hoa i a present
    exact ⟨b, same.mem_iff.mp member, is⟩
  hoaAll := fun b member => routed.hoaAll b (same.mem_iff.mpr member)
  out := by
    intro l o a present
    obtain ⟨b, member, is⟩ := routed.out l o a present
    exact ⟨b, same.mem_iff.mp member, is⟩
  outAll := fun b member => routed.outAll b (same.mem_iff.mpr member)
  proxies := by
    intro l a present
    rcases routed.proxies l a present with ⟨b, member, is⟩ | leaked
    · exact Or.inl ⟨b, same.mem_iff.mp member, is⟩
    · exact Or.inr leaked

theorem Routed.write (routed : Routed orderly k (b :: rest) (some b.key)) {b' : Bcentry}
    (key : b'.key = b.key) (link : b'.link = b.link) (tunnel : b'.tunnel = b.tunnel)
    (cleanup : b.cleanup = true → b'.cleanup = true)
    (out : b'.type = .homereg → k.routes (outRoute b.link b.ourAddr b.peerAddr) = true)
    (llocal : orderly → b.cleanup = true → b.flags.llocal = true → b'.flags.llocal = true) :
    Routed orderly k (b' :: rest) (some b'.key) := by
  have addrs : b'.ourAddr = b.ourAddr ∧ b'.peerAddr = b.peerAddr := by
    simp only [Bcentry.key, BcKey.mk.injEq] at key
    exact key
  constructor
  · intro i a present
    obtain ⟨c, member, positive, isTunnel, isPeer⟩ := routed.hoa i a present
    rcases List.mem_cons.mp member with rfl | inRest
    · exact ⟨b', List.mem_cons_self, positive, tunnel.trans isTunnel, addrs.2.trans isPeer⟩
    · exact ⟨c, List.mem_cons_of_mem _ inRest, positive, isTunnel, isPeer⟩
  · intro c member home notBusy
    rcases List.mem_cons.mp member with rfl | inRest
    · exact absurd rfl notBusy
    · exact routed.hoaAll c (List.mem_cons_of_mem _ inRest) home (key ▸ notBusy)
  · intro l o a present
    obtain ⟨c, member, cleans, isLink, isKey⟩ := routed.out l o a present
    rcases List.mem_cons.mp member with rfl | inRest
    · exact ⟨b', List.mem_cons_self, cleanup cleans, link.trans isLink, key.trans isKey⟩
    · exact ⟨c, List.mem_cons_of_mem _ inRest, cleans, isLink, isKey⟩
  · intro c member home
    rcases List.mem_cons.mp member with rfl | inRest
    · rw [link, addrs.1, addrs.2]
      exact out home
    · exact routed.outAll c (List.mem_cons_of_mem _ inRest) home
  · intro l a present
    rcases routed.proxies l a present with ⟨c, member, cleans, isLink, isAddr⟩ | leaked
    · rcases List.mem_cons.mp member with rfl | inRest
      · rcases isAddr with isPeer | ⟨isLlocal, isPeer⟩
        · exact Or.inl ⟨b', List.mem_cons_self, cleanup cleans, link.trans isLink,
            Or.inl (isPeer.trans addrs.2.symm)⟩
        · by_cases ordered : orderly
          · exact Or.inl ⟨b', List.mem_cons_self, cleanup cleans, link.trans isLink,
              Or.inr ⟨llocal ordered cleans isLlocal, by rw [addrs.2]; exact isPeer⟩⟩
          · exact Or.inr ⟨ordered, c.peerAddr, isPeer⟩
      · exact Or.inl ⟨c, List.mem_cons_of_mem _ inRest, cleans, isLink, isAddr⟩
    · exact Or.inr leaked

/-- The route to the home address is gone, so that the entry can have any tunnel. -/
theorem Routed.delHoa (routed : Routed orderly k (b :: rest) (some b.key))
    (apart : ∀ c ∈ rest, c.tunnel = b.tunnel → c.peerAddr ≠ b.peerAddr) (newIf : Int) :
    Routed orderly (k.routeDel (hoaRoute b.tunnel b.peerAddr))
      ({ b with tunnel := newIf } :: rest) (some b.key) where
  hoa := by
    intro i a present
    rw [routeDel_routes] at present
    split at present
    · cases present
    · rename_i other
      obtain ⟨c, member, positive, isTunnel, isPeer⟩ := routed.hoa i a present
      rcases List.mem_cons.mp member with rfl | inRest
      · exact absurd (by rw [isTunnel, isPeer]) other
      · exact ⟨c, List.mem_cons_of_mem _ inRest, positive, isTunnel, isPeer⟩
  hoaAll := by
    intro c member home notBusy
    rcases List.mem_cons.mp member with rfl | inRest
    · exact absurd rfl notBusy
    · rw [routeDel_routes, if_neg]
      · exact routed.hoaAll c (List.mem_cons_of_mem _ inRest) home notBusy
      · intro same
        obtain ⟨isTunnel, isPeer⟩ := hoaRoute_inj same
        exact apart c inRest isTunnel isPeer
  out := by
    intro l o a present
    rw [routeDel_routes, if_neg (hoaRoute_ne_outRoute _ _ _ _ _).symm] at present
    obtain ⟨c, member, is⟩ := routed.out l o a present
    rcases List.mem_cons.mp member with rfl | inRest
    · exact ⟨_, List.mem_cons_self, is⟩
    · exact ⟨c, List.mem_cons_of_mem _ inRest, is⟩
  outAll := by
    intro c member home
    rw [routeDel_routes, if_neg (hoaRoute_ne_outRoute _ _ _ _ _).symm]
    rcases List.mem_cons.mp member with rfl | inRest
    · exact routed.outAll b List.mem_cons_self home
    · exact routed.outAll c (List.mem_cons_of_mem _ inRest) home
  proxies := by
    intro l a present
    rcases routed.proxies l a present with ⟨c, member, is⟩ | leaked
    · rcases List.mem_cons.mp member with rfl | inRest
      · exact Or.inl ⟨_, List.mem_cons_self, is⟩
      · exact Or.inl ⟨c, List.mem_cons_of_mem _ inRest, is⟩
    · exact Or.inr leaked

theorem Routed.addHoa (routed : Routed orderly k (b :: rest) busy) (positive : 0 < b.tunnel)
    (proxies : k'.proxies = k.proxies)
    (routes : ∀ other, k'.routes other =
      if other = hoaRoute b.tunnel b.peerAddr then true else k.routes other) :
    Routed orderly k' (b :: rest) busy where
  hoa := by
    intro i a present
    rw [routes] at present
    split at present
    · rename_i same
      obtain ⟨isTunnel, isPeer⟩ := hoaRoute_inj same
      exact ⟨b, List.mem_cons_self, isTunnel ▸ positive, isTunnel.symm, isPeer.symm⟩
    · exact routed.hoa i a present
  hoaAll := by
    intro c member home notBusy
    rw [routes]
    split
    · rfl
    · exact routed.hoaAll c member home notBusy
  out := by
    intro l o a present
    rw [routes, if_neg (hoaRoute_ne_outRoute _ _ _ _ _).symm] at present
    exact routed.out l o a present
  outAll := by
    intro c member home
    rw [routes, if_neg (hoaRoute_ne_outRoute _ _ _ _ _).symm]
    exact routed.outAll c member home
  proxies := by
    intro l a present
    rw [proxies] at present
    exact routed.proxies l a present

theorem Routed.addOut (routed : Routed orderly k (b :: rest) busy) (cleans : b.cleanup = true)
    (proxies : k'.proxies = k.proxies)
    (routes : ∀ other, k'.routes other =
      if other = outRoute b.link b.ourAddr b.peerAddr then true else k.routes other) :
    Routed orderly k' (b :: rest) busy where
  hoa := by
    intro i a present
    rw [routes, if_neg (hoaRoute_ne_outRoute _ _ _ _ _)] at present
    exact routed.hoa i a present
  hoaAll := by
    intro c member home notBusy
    rw [routes, if_neg (hoaRoute_ne_outRoute _ _ _ _ _)]
    exact routed.hoaAll c member home notBusy
  out := by
    intro l o a present
    rw [routes] at present
    split at present
    · rename_i same
      obtain ⟨isLink, isOur, isPeer⟩ := outRoute_inj same
      refine ⟨b, List.mem_cons_self, cleans, isLink.symm, ?_⟩
      rw [isOur, isPeer]
      rfl
    · exact routed.out l o a present
  outAll := by
    intro c member home
    rw [routes]
    split
    · rfl
    · exact routed.outAll c member home
  proxies := by
    intro l a present
    rw [proxies] at present
    exact routed.proxies l a present

theorem Routed.addProxies (routed : Routed orderly k (b :: rest) busy)
    (cleans : b.cleanup = true) (routes : k'.routes = k.routes)
    (proxies : ∀ l a, k'.proxies (l, a) = true → k.proxies (l, a) = true ∨
      l = b.link ∧ (a = b.peerAddr ∨ b.flags.llocal = true ∧ a = llocalAddr b.peerAddr)) :
    Routed orderly k' (b :: rest) busy where
  hoa := by
    rw [routes]
    exact routed.hoa
  hoaAll := by
    rw [routes]
    exact routed.hoaAll
  out := by
    rw [routes]
    exact routed.out
  outAll := by
    rw [routes]
    exact routed.outAll
  proxies := by
    intro l a present
    rcases proxies l a present with old | ⟨isLink, isAddr⟩
    · exact routed.proxies l a old
    · exact Or.inl ⟨b, List.mem_cons_self, cleans, isLink.symm, isAddr⟩

theorem proxyNdStart_cases (k : Kernel) (link : Int) (target : In6Addr)
    (llocal takes takesLl : Bool) :
    (k.proxyNdStart link target llocal takes takesLl).1.routes = k.routes ∧
      ∀ l a, (k.proxyNdStart link target llocal takes takesLl).1.proxies (l, a) = true →
        k.proxies (l, a) = true ∨
          l = link ∧ (a = target ∨ llocal = true ∧ a = llocalAddr target) := by
  have set_ : ∀ (proxies : Int × In6Addr → Bool) (set_ : In6Addr) (value : Bool) (l : Int)
      (a : In6Addr), Function.update proxies (link, set_) value (l, a) = true →
      proxies (l, a) = true ∨ l = link ∧ a = set_ := by
    intro proxies set_ value l a present
    by_cases same : (l, a) = (link, set_)
    · exact Or.inr (Prod.mk.inj same)
    · rw [Function.update_of_ne same] at present
      exact Or.inl present
  simp only [Kernel.proxyNdStart]
  split
  · exact ⟨rfl, fun _ _ present => Or.inl present⟩
  · split
    · exact ⟨rfl, fun l a present => (set_ _ _ _ l a present).imp_right
        fun same => ⟨same.1, Or.inl same.2⟩⟩
    · rename_i isLlocal
      rw [Bool.not_eq_true', Bool.not_eq_false] at isLlocal
      split
      · refine ⟨rfl, ?_⟩
        intro l a present
        rcases set_ _ _ _ l a present with first | ⟨isLink, isAddr⟩
        · exact (set_ _ _ _ l a first).imp_right fun same => ⟨same.1, Or.inl same.2⟩
        · exact Or.inr ⟨isLink, Or.inr ⟨isLlocal, isAddr⟩⟩
      · refine ⟨rfl, ?_⟩
        intro l a present
        rcases set_ _ _ _ l a present with first | ⟨isLink, isAddr⟩
        · exact (set_ _ _ _ l a first).imp_right fun same => ⟨same.1, Or.inl same.2⟩
        · exact Or.inr ⟨isLink, Or.inl isAddr⟩

theorem Routed.stop (routed : Routed orderly k (b :: rest) (some b.key))
    (apart : ∀ c ∈ rest, c.key ≠ b.key) :
    Routed orderly ((k.routeDel (outRoute b.link b.ourAddr b.peerAddr)).proxyNdStop b.link
      b.peerAddr b.flags.llocal) ({ b with cleanup := false, type := .dad } :: rest)
      (some b.key) where
  hoa := by
    intro i a present
    change (k.routeDel _).routes _ = true at present
    rw [routeDel_routes, if_neg (hoaRoute_ne_outRoute _ _ _ _ _)] at present
    obtain ⟨c, member, is⟩ := routed.hoa i a present
    rcases List.mem_cons.mp member with rfl | inRest
    · exact ⟨_, List.mem_cons_self, is⟩
    · exact ⟨c, List.mem_cons_of_mem _ inRest, is⟩
  hoaAll := by
    intro c member home notBusy
    change (k.routeDel _).routes _ = true
    rw [routeDel_routes, if_neg (hoaRoute_ne_outRoute _ _ _ _ _)]
    rcases List.mem_cons.mp member with rfl | inRest
    · exact absurd rfl notBusy
    · exact routed.hoaAll c (List.mem_cons_of_mem _ inRest) home notBusy
  out := by
    intro l o a present
    change (k.routeDel _).routes _ = true at present
    rw [routeDel_routes] at present
    split at present
    · cases present
    · rename_i other
      obtain ⟨c, member, cleans, isLink, isKey⟩ := routed.out l o a present
      rcases List.mem_cons.mp member with rfl | inRest
      · simp only [Bcentry.key, BcKey.mk.injEq] at isKey
        exact absurd (by rw [isLink, isKey.1, isKey.2]) other
      · exact ⟨c, List.mem_cons_of_mem _ inRest, cleans, isLink, isKey⟩
  outAll := by
    intro c member home
    change (k.routeDel _).routes _ = true
    rcases List.mem_cons.mp member with rfl | inRest
    · cases home
    · rw [routeDel_routes, if_neg]
      · exact routed.outAll c (List.mem_cons_of_mem _ inRest) home
      · intro same
        obtain ⟨-, isOur, isPeer⟩ := outRoute_inj same
        refine apart c inRest ?_
        rw [Bcentry.key, Bcentry.key, isOur, isPeer]
  proxies := by
    intro l a present
    have kept : k.proxies (l, a) = true ∧ (l, a) ≠ (b.link, b.peerAddr) ∧
        (b.flags.llocal = true → (l, a) ≠ (b.link, llocalAddr b.peerAddr)) := by
      simp only [Kernel.proxyNdStop, routeDel_proxies, Function.update_apply] at present
      split at present
      · cases present
      · rename_i other
        refine ⟨?_, other, ?_⟩
        · split at present
          · rw [Function.update_apply] at present
            split at present
            · cases present
            · exact present
          · exact present
        · intro isLlocal same
          rw [if_pos isLlocal, Function.update_apply, if_pos same] at present
          cases present
    obtain ⟨there, notPeer, notLlocal⟩ := kept
    rcases routed.proxies l a there with ⟨c, member, cleans, isLink, isAddr⟩ | leaked
    · rcases List.mem_cons.mp member with rfl | inRest
      · rcases isAddr with isPeer | ⟨isLlocal, isPeer⟩
        · exact absurd (by rw [isLink, isPeer]) notPeer
        · exact absurd (by rw [isLink, isPeer]) (notLlocal isLlocal)
      · exact Or.inl ⟨c, List.mem_cons_of_mem _ inRest, cleans, isLink, isAddr⟩
    · exact Or.inr leaked

theorem Routed.forget (routed : Routed orderly k (b :: rest) (some b.key))
    (apart : ∀ c ∈ rest, c.key ≠ b.key) (noTunnel : ¬ 0 < b.tunnel)
    (noCleanup : b.cleanup = false) : Routed orderly k rest none where
  hoa := by
    intro i a present
    obtain ⟨c, member, positive, isTunnel, isPeer⟩ := routed.hoa i a present
    rcases List.mem_cons.mp member with rfl | inRest
    · exact absurd (isTunnel ▸ positive) noTunnel
    · exact ⟨c, inRest, positive, isTunnel, isPeer⟩
  hoaAll := by
    intro c inRest home _
    refine routed.hoaAll c (List.mem_cons_of_mem _ inRest) home ?_
    exact fun same => apart c inRest (Option.some.inj same).symm
  out := by
    intro l o a present
    obtain ⟨c, member, cleans, isLink, isKey⟩ := routed.out l o a present
    rcases List.mem_cons.mp member with rfl | inRest
    · rw [noCleanup] at cleans
      cases cleans
    · exact ⟨c, inRest, cleans, isLink, isKey⟩
  outAll := fun c inRest => routed.outAll c (List.mem_cons_of_mem _ inRest)
  proxies := by
    intro l a present
    rcases routed.proxies l a present with ⟨c, member, cleans, isLink, isAddr⟩ | leaked
    · rcases List.mem_cons.mp member with rfl | inRest
      · rw [noCleanup] at cleans
        cases cleans
      · exact Or.inl ⟨c, inRest, cleans, isLink, isAddr⟩
    · exact Or.inr leaked

theorem Routed.new (routed : Routed orderly k bc busy) (notHome : b.type ≠ .homereg) :
    Routed orderly k (b :: bc) busy where
  hoa := by
    intro i a present
    obtain ⟨c, member, is⟩ := routed.hoa i a present
    exact ⟨c, List.mem_cons_of_mem _ member, is⟩
  hoaAll := by
    intro c member home
    rcases List.mem_cons.mp member with rfl | earlier
    · exact absurd home notHome
    · exact routed.hoaAll c earlier home
  out := by
    intro l o a present
    obtain ⟨c, member, is⟩ := routed.out l o a present
    exact ⟨c, List.mem_cons_of_mem _ member, is⟩
  outAll := by
    intro c member home
    rcases List.mem_cons.mp member with rfl | earlier
    · exact absurd home notHome
    · exact routed.outAll c earlier home
  proxies := by
    intro l a present
    rcases routed.proxies l a present with ⟨c, member, is⟩ | leaked
    · exact Or.inl ⟨c, List.mem_cons_of_mem _ member, is⟩
    · exact Or.inr leaked

theorem Routed.hold (routed : Routed orderly k bc none) (busy : Option BcKey) :
    Routed orderly k bc busy :=
  ⟨routed.hoa, fun b member home _ => routed.hoaAll b member home (Option.some_ne_none _).symm,
    routed.out, routed.outAll, routed.proxies⟩

theorem Routed.settle (routed : Routed orderly k (b :: rest) (some b.key))
    (apart : ∀ c ∈ rest, c.key ≠ b.key)
    (hoaSet : b.type = .homereg → k.routes (hoaRoute b.tunnel b.peerAddr) = true) :
    Routed orderly k (b :: rest) none where
  hoa := routed.hoa
  hoaAll := by
    intro c member home _
    rcases List.mem_cons.mp member with rfl | inRest
    · exact hoaSet home
    · refine routed.hoaAll c member home ?_
      exact fun same => apart c inRest (Option.some.inj same).symm
  out := routed.out
  outAll := routed.outAll
  proxies := routed.proxies

end Routed

def netRoute (ifindex : Int) (net : UInt8 × List Bool) : Route :=
  ⟨ifindex, .mip6, .mip6Fwd, none, net⟩

theorem netRoute_isMnp (i : Int) (net : UInt8 × List Bool) : (netRoute i net).IsMnp :=
  ⟨rfl, rfl, rfl⟩

theorem netRoute_eq_mnpRoute (i j : Int) (net : UInt8 × List Bool) (p : PrefixListEntry) :
    netRoute i net = mnpRoute j p ↔ i = j ∧ net = prefixKey p := by
  simp only [netRoute, mnpRoute, Route.mk.injEq, true_and]

/-- Prefixes that `prefix_list_find` tells apart. -/
structure Proper (pl : List PrefixListEntry) : Prop where
  lengths : ∀ p ∈ pl, p.plePlen ≠ 0 ∧ p.plePlen.toNat ≤ 128
  nodup : (keys pl).Nodup

theorem Proper.nil : Proper [] := ⟨by simp, by simp [keys]⟩

theorem mem_keys {pl : List PrefixListEntry} {p : PrefixListEntry} (member : p ∈ pl) :
    prefixKey p ∈ keys pl := List.mem_map_of_mem member

theorem prefixListFind_iff {pl : List PrefixListEntry}
    (lengths : ∀ q ∈ pl, q.plePlen ≠ 0 ∧ q.plePlen.toNat ≤ 128) {p : PrefixListEntry}
    (positive : p.plePlen ≠ 0) : prefixListFind pl p = true ↔ prefixKey p ∈ keys pl := by
  have notZero : p.plePlen.toNat ≠ 0 := fun zero => positive (UInt8.toNat_inj.mp zero)
  rw [prefixListFind, prefixListGet, prefixListGetFrom_isSome, keys, List.mem_map]
  constructor
  · rintro (noEntry | ⟨q, member, same, lengthsOr⟩)
    · cases noEntry
    · refine ⟨q, member, (prefixKey_eq_iff q p).mpr ⟨?_, ?_⟩⟩
      · exact UInt8.toNat_inj.mp (lengthsOr.resolve_left notZero)
      · rw [Nat.min_eq_left (lengths q member).2]
        exact (ipv6PfxCmp_eq_false _ _ (lengths q member).2).mp same
  · rintro ⟨q, member, same⟩
    obtain ⟨length, bits⟩ := (prefixKey_eq_iff q p).mp same
    rw [Nat.min_eq_left (lengths q member).2] at bits
    exact Or.inr ⟨q, member, (ipv6PfxCmp_eq_false _ _ (lengths q member).2).mpr bits,
      Or.inr (by rw [length])⟩

/-- The routes that are left: those of the old prefixes are out, but for the new ones
unless all are to go. -/
theorem nemoHaDelMnpRoutes_routes (new : List PrefixListEntry) (i : Int) (all : Bool) (k : Kernel)
    (old : List PrefixListEntry) (j : Int) (net : UInt8 × List Bool) :
    (nemoHaDelMnpRoutes new i all k old).routes (netRoute j net) = true ↔
      k.routes (netRoute j net) = true ∧ ¬ (j = i ∧ ∃ p ∈ old, prefixKey p = net ∧
        (all = true ∨ prefixListFind new p = false)) := by
  induction old generalizing k with
  | nil => simp [nemoHaDelMnpRoutes]
  | cons p rest ih =>
      rw [List.exists_mem_cons_iff, nemoHaDelMnpRoutes]
      split
      · rename_i stays
        simp only [Bool.and_eq_true, Bool.not_eq_true'] at stays
        rw [ih]
        simp only [stays.1, stays.2, Bool.false_eq_true, Bool.true_eq_false, or_self, and_false,
          false_or]
      · rename_i goes
        have removed : all = true ∨ prefixListFind new p = false := by
          cases all with
          | true => exact Or.inl rfl
          | false => exact Or.inr (by simpa using goes)
        rw [ih, routeDel_routes]
        by_cases same : netRoute j net = mnpRoute i p
        · obtain ⟨isIf, isNet⟩ := (netRoute_eq_mnpRoute j i net p).mp same
          rw [if_pos same]
          refine iff_of_false (fun gone => Bool.false_ne_true gone.1) ?_
          rintro ⟨-, notGone⟩
          exact notGone ⟨isIf, Or.inl ⟨isNet.symm, removed⟩⟩
        · rw [if_neg same]
          have other : ¬ (j = i ∧ prefixKey p = net) := fun both =>
            same ((netRoute_eq_mnpRoute j i net p).mpr ⟨both.1, both.2.symm⟩)
          constructor
          · rintro ⟨present, notGone⟩
            refine ⟨present, ?_⟩
            rintro ⟨isIf, ⟨isNet, -⟩ | inRest⟩
            · exact other ⟨isIf, isNet⟩
            · exact notGone ⟨isIf, inRest⟩
          · rintro ⟨present, notGone⟩
            exact ⟨present, fun inRest => notGone ⟨inRest.1, Or.inr inRest.2⟩⟩

theorem nemoHaAddMnpRoutes_routes {takes : Route → Bool} (obliging : ∀ route, takes route = true)
    (old : List PrefixListEntry) {i : Int} (linked : i ≠ 0) (all : Bool) (k : Kernel)
    (new : List PrefixListEntry) :
    (nemoHaAddMnpRoutes takes old i all k new).2 = true ∧ ∀ j net,
      ((nemoHaAddMnpRoutes takes old i all k new).1.routes (netRoute j net) = true ↔
        k.routes (netRoute j net) = true ∨ j = i ∧ ∃ p ∈ new, prefixKey p = net ∧
          (all = true ∨ prefixListFind old p = false)) := by
  induction new generalizing k with
  | nil => simp [nemoHaAddMnpRoutes]
  | cons p rest ih =>
      simp only [List.exists_mem_cons_iff, nemoHaAddMnpRoutes]
      split
      · rename_i stays
        simp only [Bool.and_eq_true, Bool.not_eq_true'] at stays
        refine ⟨(ih k).1, ?_⟩
        intro j net
        rw [(ih k).2]
        simp only [stays.1, stays.2, Bool.false_eq_true, Bool.true_eq_false, or_self, and_false,
          false_or]
      · rename_i comes
        have added : all = true ∨ prefixListFind old p = false := by
          cases all with
          | true => exact Or.inl rfl
          | false => exact Or.inr (by simpa using comes)
        rcases routeAdd_cases takes k (mnpRoute i p) with refused | ⟨-, -, k', taken, -, routes⟩
        · simp only [Kernel.routeAdd] at refused
          rw [if_neg (show (mnpRoute i p).oif ≠ 0 from linked), if_pos (obliging _)] at refused
          cases (Prod.mk.inj refused).2
        · rw [taken]
          refine ⟨(ih k').1, ?_⟩
          intro j net
          rw [(ih k').2, routes]
          by_cases same : netRoute j net = mnpRoute i p
          · obtain ⟨isIf, isNet⟩ := (netRoute_eq_mnpRoute j i net p).mp same
            rw [if_pos same]
            simp only [true_or, true_iff]
            exact Or.inr ⟨isIf, Or.inl ⟨isNet.symm, added⟩⟩
          · rw [if_neg same]
            have other : ¬ (j = i ∧ prefixKey p = net) := fun both =>
              same ((netRoute_eq_mnpRoute j i net p).mpr ⟨both.1, both.2.symm⟩)
            constructor
            · rintro (present | ⟨isIf, inRest⟩)
              · exact Or.inl present
              · exact Or.inr ⟨isIf, Or.inr inRest⟩
            · rintro (present | ⟨isIf, ⟨isNet, -⟩ | inRest⟩)
              · exact Or.inl present
              · exact absurd ⟨isIf, isNet⟩ other
              · exact Or.inr ⟨isIf, inRest⟩

structure Mnps (k : Kernel) (bc : List Bcentry) : Prop where
  sound : ∀ i net, k.routes (netRoute i net) = true →
    ∃ b ∈ bc, 0 < i ∧ b.tunnel = i ∧ net ∈ keys b.mobNetPrefixes
  complete : ∀ b ∈ bc, 0 < b.tunnel → ∀ net ∈ keys b.mobNetPrefixes,
    k.routes (netRoute b.tunnel net) = true
  proper : ∀ b ∈ bc, Proper b.mobNetPrefixes
  disjoint : bc.Pairwise fun b c => ∀ net ∈ keys b.mobNetPrefixes, net ∉ keys c.mobNetPrefixes

section Mnps
variable {k k' : Kernel} {rest bc : List Bcentry} {b : Bcentry}

theorem Mnps.congr (mnps : Mnps k bc)
    (same : ∀ route, route.IsMnp → k'.routes route = k.routes route) : Mnps k' bc where
  sound := by
    intro i net present
    rw [same _ (netRoute_isMnp i net)] at present
    exact mnps.sound i net present
  complete := by
    intro b member positive net inKeys
    rw [same _ (netRoute_isMnp _ net)]
    exact mnps.complete b member positive net inKeys
  proper := mnps.proper
  disjoint := mnps.disjoint

theorem Mnps.perm {bc' : List Bcentry} (mnps : Mnps k bc) (same : bc.Perm bc') : Mnps k bc' where
  sound := by
    intro i net present
    obtain ⟨b, member, is⟩ := mnps.sound i net present
    exact ⟨b, same.mem_iff.mp member, is⟩
  complete := fun b member => mnps.complete b (same.mem_iff.mpr member)
  proper := fun b member => mnps.proper b (same.mem_iff.mpr member)
  disjoint := mnps.disjoint.perm same fun apart net inFirst inSecond => apart net inSecond inFirst

def Unused (pl : List PrefixListEntry) (rest : List Bcentry) : Prop :=
  ∀ c ∈ rest, ∀ net ∈ keys pl, net ∉ keys c.mobNetPrefixes

theorem Mnps.unused (mnps : Mnps k (b :: rest)) : Unused b.mobNetPrefixes rest :=
  fun c member => (List.pairwise_cons.mp mnps.disjoint).1 c member

theorem Mnps.write (mnps : Mnps k (b :: rest)) {b' : Bcentry}
    (proper : Proper b'.mobNetPrefixes) (unused : Unused b'.mobNetPrefixes rest)
    (rests : ∀ c ∈ rest, 0 < c.tunnel → ∀ net ∈ keys c.mobNetPrefixes,
      k'.routes (netRoute c.tunnel net) = k.routes (netRoute c.tunnel net))
    (own : 0 < b'.tunnel → ∀ net ∈ keys b'.mobNetPrefixes,
      k'.routes (netRoute b'.tunnel net) = true)
    (sound : ∀ i net, k'.routes (netRoute i net) = true →
      (0 < i ∧ b'.tunnel = i ∧ net ∈ keys b'.mobNetPrefixes) ∨
        k.routes (netRoute i net) = true ∧ ¬ (b.tunnel = i ∧ net ∈ keys b.mobNetPrefixes)) :
    Mnps k' (b' :: rest) where
  sound := by
    intro i net present
    rcases sound i net present with here | ⟨old, notHere⟩
    · exact ⟨b', List.mem_cons_self, here⟩
    · obtain ⟨c, member, positive, isTunnel, inKeys⟩ := mnps.sound i net old
      rcases List.mem_cons.mp member with rfl | inRest
      · exact absurd ⟨isTunnel, inKeys⟩ notHere
      · exact ⟨c, List.mem_cons_of_mem _ inRest, positive, isTunnel, inKeys⟩
  complete := by
    intro c member positive net inKeys
    rcases List.mem_cons.mp member with rfl | inRest
    · exact own positive net inKeys
    · rw [rests c inRest positive net inKeys]
      exact mnps.complete c (List.mem_cons_of_mem _ inRest) positive net inKeys
  proper := by
    intro c member
    rcases List.mem_cons.mp member with rfl | inRest
    · exact proper
    · exact mnps.proper c (List.mem_cons_of_mem _ inRest)
  disjoint := List.pairwise_cons.mpr ⟨unused, (List.pairwise_cons.mp mnps.disjoint).2⟩

theorem Mnps.relabel (mnps : Mnps k (b :: rest)) {b' : Bcentry} (tunnel : b'.tunnel = b.tunnel)
    (same : b'.mobNetPrefixes = b.mobNetPrefixes) : Mnps k (b' :: rest) := by
  refine mnps.write ?_ ?_ (fun _ _ _ _ _ => rfl) ?_ ?_
  · rw [same]
    exact mnps.proper b List.mem_cons_self
  · rw [same]
    exact mnps.unused
  · rw [tunnel, same]
    exact mnps.complete b List.mem_cons_self
  · intro i net present
    rw [tunnel, same]
    by_cases here : b.tunnel = i ∧ net ∈ keys b.mobNetPrefixes
    · obtain ⟨c, -, positive, -⟩ := mnps.sound i net present
      exact Or.inl ⟨positive, here⟩
    · exact Or.inr ⟨present, here⟩

theorem Mnps.del (mnps : Mnps k (b :: rest)) (new : List PrefixListEntry) :
    Mnps (nemoHaDelMnpRoutes new b.tunnel true k b.mobNetPrefixes)
      ({ b with tunnel := 0 } :: rest) := by
  have routes := nemoHaDelMnpRoutes_routes new b.tunnel true k b.mobNetPrefixes
  refine mnps.write (mnps.proper b List.mem_cons_self) mnps.unused ?_ ?_ ?_
  · intro c inRest positive net inKeys
    have there := mnps.complete c (List.mem_cons_of_mem _ inRest) positive net inKeys
    rw [there, routes]
    refine ⟨there, ?_⟩
    rintro ⟨-, p, member, rfl, -⟩
    exact mnps.unused c inRest _ (mem_keys member) inKeys
  · intro positive
    exact absurd positive (lt_irrefl 0)
  · intro i net present
    obtain ⟨old, notGone⟩ := (routes i net).mp present
    refine Or.inr ⟨old, ?_⟩
    rintro ⟨isTunnel, inKeys⟩
    obtain ⟨p, member, isNet⟩ := List.mem_map.mp inKeys
    exact notGone ⟨isTunnel.symm, p, member, isNet, Or.inl rfl⟩

theorem Mnps.add (mnps : Mnps k (b :: rest)) (noTunnel : ¬ 0 < b.tunnel) {takes : Route → Bool}
    (obliging : ∀ route, takes route = true) {new : List PrefixListEntry} (proper : Proper new)
    (unused : Unused new rest) (old : List PrefixListEntry) {i : Int} (positive : 0 < i) :
    (nemoHaAddMnpRoutes takes old i true k new).2 = true ∧
      Mnps (nemoHaAddMnpRoutes takes old i true k new).1
        ({ b with tunnel := i, mobNetPrefixes := new } :: rest) := by
  obtain ⟨done, routes⟩ :=
    @nemoHaAddMnpRoutes_routes takes obliging old i (ne_of_gt positive) true k new
  refine ⟨done, mnps.write proper unused ?_ ?_ ?_⟩
  · intro c inRest isTunnel net inKeys
    have there := mnps.complete c (List.mem_cons_of_mem _ inRest) isTunnel net inKeys
    rw [there, routes]
    exact Or.inl there
  · intro _ net inKeys
    rw [routes]
    obtain ⟨p, member, isNet⟩ := List.mem_map.mp inKeys
    exact Or.inr ⟨rfl, p, member, isNet, Or.inl rfl⟩
  · intro j net present
    rcases (routes j net).mp present with there | ⟨isIf, p, member, isNet, -⟩
    · refine Or.inr ⟨there, ?_⟩
      rintro ⟨isTunnel, -⟩
      obtain ⟨c, -, tunnelled, -⟩ := mnps.sound j net there
      exact noTunnel (isTunnel ▸ tunnelled)
    · refine Or.inl ⟨isIf ▸ positive, isIf.symm, ?_⟩
      rw [← isNet]
      exact mem_keys member

theorem Mnps.change (mnps : Mnps k (b :: rest)) (positive : 0 < b.tunnel) {takes : Route → Bool}
    (obliging : ∀ route, takes route = true) {new : List PrefixListEntry} (proper : Proper new)
    (unused : Unused new rest) :
    let deleted := nemoHaDelMnpRoutes new b.tunnel false k b.mobNetPrefixes
    let added := nemoHaAddMnpRoutes takes b.mobNetPrefixes b.tunnel false deleted new
    added.2 = true ∧ Mnps added.1 ({ b with mobNetPrefixes := new } :: rest) := by
  intro deleted added
  obtain ⟨done, routes⟩ := @nemoHaAddMnpRoutes_routes takes obliging b.mobNetPrefixes b.tunnel
    (ne_of_gt positive) false deleted new
  have old := mnps.proper b List.mem_cons_self
  have left_ := nemoHaDelMnpRoutes_routes new b.tunnel false k b.mobNetPrefixes
  refine ⟨done, mnps.write proper unused ?_ ?_ ?_⟩
  · intro c inRest isTunnel net inKeys
    have there := mnps.complete c (List.mem_cons_of_mem _ inRest) isTunnel net inKeys
    rw [there, routes, left_]
    refine Or.inl ⟨there, ?_⟩
    rintro ⟨-, p, member, rfl, -⟩
    exact mnps.unused c inRest _ (mem_keys member) inKeys
  · intro _ net inKeys
    obtain ⟨p, member, isNet⟩ := List.mem_map.mp inKeys
    rw [routes, left_]
    by_cases inOld : net ∈ keys b.mobNetPrefixes
    · refine Or.inl ⟨mnps.complete b List.mem_cons_self positive net inOld, ?_⟩
      rintro ⟨-, q, inList, sameNet, notAll | notFound⟩
      · cases notAll
      · have found := (prefixListFind_iff proper.lengths (old.lengths q inList).1).mpr
          (sameNet.trans isNet.symm ▸ mem_keys member)
        rw [notFound] at found
        cases found
    · refine Or.inr ⟨rfl, p, member, isNet, Or.inr ?_⟩
      rw [← Bool.not_eq_true, prefixListFind_iff old.lengths (proper.lengths p member).1, isNet]
      exact inOld
  · intro j net present
    rcases (routes j net).mp present with there | ⟨isIf, p, member, isNet, -⟩
    · obtain ⟨before, notGone⟩ := (left_ j net).mp there
      by_cases here : b.tunnel = j ∧ net ∈ keys b.mobNetPrefixes
      · left
        obtain ⟨isTunnel, inOld⟩ := here
        refine ⟨isTunnel ▸ positive, isTunnel, ?_⟩
        by_contra notNew
        obtain ⟨q, inList, isNet⟩ := List.mem_map.mp inOld
        refine notGone ⟨isTunnel.symm, q, inList, isNet, Or.inr ?_⟩
        rw [← Bool.not_eq_true, prefixListFind_iff proper.lengths (old.lengths q inList).1, isNet]
        exact notNew
      · exact Or.inr ⟨before, here⟩
    · refine Or.inl ⟨isIf ▸ positive, isIf.symm, ?_⟩
      rw [← isNet]
      exact mem_keys member

theorem Mnps.same (mnps : Mnps k (b :: rest)) {new : List PrefixListEntry} (proper : Proper new)
    (unused : Unused new rest)
    (equal : prefixListCmp (stored b.mobNetPrefixes) (stored new) ≠ 0) :
    Mnps k ({ b with mobNetPrefixes := new } :: rest) := by
  have isEqual := (prefixListCmp_cases (stored b.mobNetPrefixes) (stored new)).resolve_right equal
  have old := mnps.proper b List.mem_cons_self
  obtain ⟨lengths, contained⟩ := contained_of_cmp (storedAs_storeAll _ b.mobNetPrefixes)
    (storedAs_storeAll _ new) isEqual
  have noRepeat : ¬ Overcounts b.mobNetPrefixes new := by
    rintro ⟨-, -, net, member, more⟩
    rw [old.nodup.count, if_pos member] at more
    have one := List.count_pos_iff.mpr (contained net member)
    omega
  have sameKeys : ∀ net, net ∈ keys new ↔ net ∈ keys b.mobNetPrefixes := fun net =>
    (List.Perm.mem_iff (perm_of_not_overcounts noRepeat lengths contained)).symm
  refine mnps.write proper unused (fun _ _ _ _ _ => rfl) ?_ ?_
  · intro positive net inKeys
    exact mnps.complete b List.mem_cons_self positive net ((sameKeys net).mp inKeys)
  · intro i net present
    by_cases here : b.tunnel = i ∧ net ∈ keys b.mobNetPrefixes
    · obtain ⟨c, -, positive, -⟩ := mnps.sound i net present
      exact Or.inl ⟨positive, here.1, (sameKeys net).mpr here.2⟩
    · exact Or.inr ⟨present, here⟩

theorem Mnps.new (mnps : Mnps k bc) (noTunnel : ¬ 0 < b.tunnel) (none_ : b.mobNetPrefixes = []) :
    Mnps k (b :: bc) where
  sound := by
    intro i net present
    obtain ⟨c, member, is⟩ := mnps.sound i net present
    exact ⟨c, List.mem_cons_of_mem _ member, is⟩
  complete := by
    intro c member positive
    rcases List.mem_cons.mp member with rfl | earlier
    · exact absurd positive noTunnel
    · exact mnps.complete c earlier positive
  proper := by
    intro c member
    rcases List.mem_cons.mp member with rfl | earlier
    · rw [none_]
      exact Proper.nil
    · exact mnps.proper c earlier
  disjoint := by
    refine List.pairwise_cons.mpr ⟨?_, mnps.disjoint⟩
    rw [none_]
    exact fun c _ net inKeys => absurd inKeys List.not_mem_nil

theorem Mnps.forget (mnps : Mnps k (b :: rest)) (noTunnel : ¬ 0 < b.tunnel) : Mnps k rest where
  sound := by
    intro i net present
    obtain ⟨c, member, positive, isTunnel, inKeys⟩ := mnps.sound i net present
    rcases List.mem_cons.mp member with rfl | inRest
    · exact absurd (isTunnel ▸ positive) noTunnel
    · exact ⟨c, inRest, positive, isTunnel, inKeys⟩
  complete := fun c inRest => mnps.complete c (List.mem_cons_of_mem _ inRest)
  proper := fun c inRest => mnps.proper c (List.mem_cons_of_mem _ inRest)
  disjoint := (List.pairwise_cons.mp mnps.disjoint).2

end Mnps

/-! ## The callbacks -/

structure KernelOk (orderly : Prop) (k : Kernel) (bc : List Bcentry) (busy : Option BcKey) :
    Prop where
  routed : Routed orderly k bc busy
  mnps : orderly → Mnps k bc

def Obliging (conf : HaRegConf) (a : Answers) : Prop :=
  (∀ route, a.takes route = true) ∧
    (conf.useMnHaIpsec = true → a.tnlPolAdd = true ∧ a.trnsUpdate = true ∧ a.tnlUpdate = true)

structure Follows (conf : HaRegConf) (a : Answers) (new : List PrefixListEntry)
    (rest : List Bcentry) : Prop where
  obliging : Obliging conf a
  proper : Proper new
  unused : Unused new rest

section Callbacks
variable {orderly : Prop} {conf : HaRegConf} {a : Answers} {k : Kernel} {rest : List Bcentry}
  {b : Bcentry} {p : HomeTnlOpsParm}

theorem Routed.retunnel (routed : Routed orderly k (b :: rest) (some b.key))
    (noTunnel : ¬ 0 < b.tunnel) (tunnel : Int) :
    Routed orderly k ({ b with tunnel } :: rest) (some b.key) where
  hoa := by
    intro i a present
    obtain ⟨c, member, positive, isTunnel, isPeer⟩ := routed.hoa i a present
    rcases List.mem_cons.mp member with rfl | inRest
    · exact absurd (isTunnel ▸ positive) noTunnel
    · exact ⟨c, List.mem_cons_of_mem _ inRest, positive, isTunnel, isPeer⟩
  hoaAll := by
    intro c member home notBusy
    rcases List.mem_cons.mp member with rfl | inRest
    · exact absurd rfl notBusy
    · exact routed.hoaAll c (List.mem_cons_of_mem _ inRest) home notBusy
  out := by
    intro l o a present
    obtain ⟨c, member, is⟩ := routed.out l o a present
    rcases List.mem_cons.mp member with rfl | inRest
    · exact ⟨_, List.mem_cons_self, is⟩
    · exact ⟨c, List.mem_cons_of_mem _ inRest, is⟩
  outAll := by
    intro c member home
    rcases List.mem_cons.mp member with rfl | inRest
    · exact routed.outAll b List.mem_cons_self home
    · exact routed.outAll c (List.mem_cons_of_mem _ inRest) home
  proxies := by
    intro l a present
    rcases routed.proxies l a present with ⟨c, member, is⟩ | leaked
    · rcases List.mem_cons.mp member with rfl | inRest
      · exact Or.inl ⟨_, List.mem_cons_self, is⟩
      · exact Or.inl ⟨c, List.mem_cons_of_mem _ inRest, is⟩
    · exact Or.inr leaked

theorem Routed.write_mnps {busy : Option BcKey} (routed : Routed orderly k (b :: rest) busy)
    (isBusy : busy = some b.key) (mobNetPrefixes : List PrefixListEntry) :
    Routed orderly k ({ b with mobNetPrefixes } :: rest) busy := by
  subst isBusy
  exact routed.write rfl rfl rfl (fun cleans => cleans)
    (fun home => routed.outAll b List.mem_cons_self home) (fun _ _ llocal => llocal)

theorem KernelOk.tnlDel (ok : KernelOk orderly k (b :: rest) (some b.key))
    (apart : ∀ c ∈ rest, c.tunnel = b.tunnel → c.peerAddr ≠ b.peerAddr)
    (peer : p.bce.peerAddr = b.peerAddr) (mnps : p.bce.mobNetPrefixes = b.mobNetPrefixes)
    (newIf : Int) :
    (homeTnlDel b.tunnel newIf (k, p)).2 = { p with bce := { p.bce with tunnel := newIf } } ∧
      KernelOk orderly (homeTnlDel b.tunnel newIf (k, p)).1 ({ b with tunnel := 0 } :: rest)
        (some b.key) := by
  refine ⟨rfl, ?_, ?_⟩
  · simp only [homeTnlDel, peer]
    exact (ok.routed.delHoa apart 0).congr (nemoHaDelMnpRoutes_other _ _ _ _ _)
  · intro ordered
    simp only [homeTnlDel, peer, mnps]
    refine ((ok.mnps ordered).congr ?_).del p.mobNetPrefixes
    intro route isMnp
    rw [routeDel_routes, if_neg]
    rintro rfl
    exact not_isMnp_hoaRoute _ _ isMnp

/-- A refusal of `home_tnl_add` takes the routes back, but for those of prefixes that
the entry has not got. -/
theorem KernelOk.tnlUndo {newIf : Int}
    (routed : Routed orderly k ({ b with tunnel := newIf } :: rest) (some b.key))
    (notOrderly : ¬ orderly) (apart : ∀ c ∈ rest, c.tunnel = newIf → c.peerAddr ≠ b.peerAddr)
    (peer : p.bce.peerAddr = b.peerAddr) (oldIf : Int) (status : Int) :
    ∃ k' p', homeTnlUndo oldIf newIf k p status = ((k', p'), false) ∧
      p'.bce = { p.bce with tunnel := oldIf } ∧
      KernelOk orderly k' ({ b with tunnel := 0 } :: rest) (some b.key) := by
  refine ⟨_, _, rfl, rfl, ?_, fun ordered => absurd ordered notOrderly⟩
  simp only [peer]
  exact (routed.delHoa apart 0).congr (nemoHaDelMnpRoutes_other _ _ _ _ _)

theorem KernelOk.tnlAdd (ok : KernelOk orderly k ({ b with tunnel := 0 } :: rest) (some b.key))
    {newIf : Int} (positive : 0 < newIf)
    (apart : ∀ c ∈ rest, c.tunnel = newIf → c.peerAddr ≠ b.peerAddr)
    (peer : p.bce.peerAddr = b.peerAddr)
    (follows : orderly → Follows conf a p.mobNetPrefixes rest) (oldIf : Int) :
    (∃ k', homeTnlAdd conf a oldIf newIf (k, p) =
        ((k', { p with bce := { p.bce with tunnel := newIf } }), true) ∧
      k'.routes (hoaRoute newIf b.peerAddr) = true ∧
      KernelOk orderly k' ({ b with tunnel := newIf, mobNetPrefixes := p.mobNetPrefixes } :: rest)
        (some b.key)) ∨
    ∃ k' p', homeTnlAdd conf a oldIf newIf (k, p) = ((k', p'), false) ∧
      p'.bce = { p.bce with tunnel := oldIf } ∧
      KernelOk orderly k' ({ b with tunnel := 0 } :: rest) (some b.key) ∧ ¬ orderly := by
  have isApart : ∀ c ∈ rest, c.tunnel = newIf → c.peerAddr ≠ b.peerAddr := apart
  -- the tunnel is written before the routes
  have linked : Routed orderly k ({ b with tunnel := newIf } :: rest) (some b.key) :=
    ok.routed.retunnel (lt_irrefl 0) newIf
  simp only [homeTnlAdd]
  cases added : nemoHaAddMnpRoutes a.takes p.bce.mobNetPrefixes newIf true k p.mobNetPrefixes with
  | mk k₁ done =>
      have same : k.SameOther k₁ := by
        have other := nemoHaAddMnpRoutes_other a.takes p.bce.mobNetPrefixes newIf true k
          p.mobNetPrefixes
        rw [added] at other
        exact other
      have linked₁ := linked.congr same
      cases done with
      | false =>
          have notOrderly : ¬ orderly := by
            intro ordered
            have taken := ((ok.mnps ordered).add (lt_irrefl 0) (follows ordered).obliging.1
              (follows ordered).proper (follows ordered).unused p.bce.mobNetPrefixes positive).1
            rw [added] at taken
            cases taken
          obtain ⟨k', p', undone, isBce, back⟩ := @KernelOk.tnlUndo orderly k₁ rest b
            { p with bce := { p.bce with tunnel := newIf } } newIf linked₁ notOrderly isApart peer
            oldIf (mnpStatus p.bce.nemoType)
          exact Or.inr ⟨k', p', undone, isBce, back, notOrderly⟩
      | true =>
          rcases routeAdd_cases a.takes k₁ (hoaRoute newIf p.bce.peerAddr) with
            refused | ⟨-, -, k₂, taken, proxies, routes⟩
          · simp only [refused]
            have notOrderly : ¬ orderly := by
              intro ordered
              simp only [Kernel.routeAdd] at refused
              rw [if_neg (show (hoaRoute newIf p.bce.peerAddr).oif ≠ 0 from ne_of_gt positive),
                if_pos ((follows ordered).obliging.1 _)] at refused
              cases (Prod.mk.inj refused).2
            obtain ⟨k', p', undone, isBce, back⟩ := @KernelOk.tnlUndo orderly k₁ rest b
              { p with bce := { p.bce with tunnel := newIf } } newIf linked₁ notOrderly isApart peer
              oldIf basInsufficient
            exact Or.inr ⟨k', p', undone, isBce, back, notOrderly⟩
          · simp only [taken]
            rw [peer] at routes
            have linked₂ : Routed orderly k₂ ({ b with tunnel := newIf } :: rest) (some b.key) :=
              @Routed.addHoa _ _ _ _ { b with tunnel := newIf } _ linked₁ positive proxies routes
            split
            · rename_i failed
              have notOrderly : ¬ orderly := by
                intro ordered
                simp only [Bool.and_eq_true, Bool.not_eq_true'] at failed
                obtain ⟨add, trns, tnl⟩ := (follows ordered).obliging.2 failed.1
                rw [add, trns, tnl] at failed
                cases failed.2
              obtain ⟨k', p', undone, isBce, back⟩ := @KernelOk.tnlUndo orderly k₂ rest b
                { p with bce := { p.bce with tunnel := newIf } } newIf linked₂ notOrderly isApart
                peer oldIf basInsufficient
              exact Or.inr ⟨k', p', undone, isBce, back, notOrderly⟩
            · refine Or.inl ⟨k₂, rfl, ?_, ?_, ?_⟩
              · rw [routes, if_pos rfl]
              · exact @Routed.write_mnps _ _ _ { b with tunnel := newIf } _ linked₂ rfl _
              · intro ordered
                have mnps := ((ok.mnps ordered).add (lt_irrefl 0) (follows ordered).obliging.1
                  (follows ordered).proper (follows ordered).unused p.bce.mobNetPrefixes positive).2
                rw [added] at mnps
                refine mnps.congr ?_
                intro route isMnp
                rw [routes, if_neg]
                rintro rfl
                exact not_isMnp_hoaRoute _ _ isMnp

/-- `home_tnl_chg` for the entry in hand: its routes follow, or it has lost them. -/
theorem KernelOk.tnlChg (ok : KernelOk orderly k (b :: rest) (some b.key)) (linked : 0 < b.tunnel)
    (hoaSet : k.routes (hoaRoute b.tunnel b.peerAddr) = true) {newIf : Int} (positive : 0 < newIf)
    (apart : ∀ c ∈ rest, c.tunnel = b.tunnel ∨ c.tunnel = newIf → c.peerAddr ≠ b.peerAddr)
    (peer : p.bce.peerAddr = b.peerAddr) (tunnel : p.bce.tunnel = b.tunnel)
    (mnps : p.bce.mobNetPrefixes = b.mobNetPrefixes)
    (follows : orderly → Follows conf a p.mobNetPrefixes rest) :
    (∃ k', homeTnlChg conf a b.tunnel newIf (k, p) =
        ((k', { p with bce := { p.bce with tunnel := newIf } }), true) ∧
      k'.routes (hoaRoute newIf b.peerAddr) = true ∧
      KernelOk orderly k' ({ b with tunnel := newIf, mobNetPrefixes := p.mobNetPrefixes } :: rest)
        (some b.key)) ∨
    ∃ k' p', homeTnlChg conf a b.tunnel newIf (k, p) = ((k', p'), false) ∧ p'.bce = p.bce ∧
      Routed orderly k' (b :: rest) (some b.key) ∧ ¬ orderly := by
  simp only [homeTnlChg]
  by_cases stays : b.tunnel = newIf
  · subst stays
    have sameBce : { p with bce := { p.bce with tunnel := b.tunnel } } = p := by
      rw [← tunnel]
    rw [if_pos rfl, sameBce]
    have changed : k.SameOther (homeTnlMnps a b.tunnel k p).1 := by
      simp only [homeTnlMnps]
      split
      · exact (nemoHaDelMnpRoutes_other _ _ _ _ _).trans (nemoHaAddMnpRoutes_other _ _ _ _ _ _)
      · exact Kernel.SameOther.refl k
    have routed := ok.routed.congr changed
    have followed : orderly → (homeTnlMnps a b.tunnel k p).2 = true ∧
        Mnps (homeTnlMnps a b.tunnel k p).1
          ({ b with mobNetPrefixes := p.mobNetPrefixes } :: rest) := by
      intro ordered
      have new := follows ordered
      simp only [homeTnlMnps, mnps]
      split
      · exact (ok.mnps ordered).change linked new.obliging.1 new.proper new.unused
      · rename_i equal
        exact ⟨rfl, (ok.mnps ordered).same new.proper new.unused equal⟩
    cases result : homeTnlMnps a b.tunnel k p with
    | mk k₁ done =>
        rw [result] at routed followed changed
        cases done with
        | false =>
            refine Or.inr ⟨_, _, rfl, rfl, routed, ?_⟩
            intro ordered
            cases (followed ordered).1
        | true =>
            simp only
            split
            · rename_i failed
              refine Or.inr ⟨_, _, rfl, rfl, routed, ?_⟩
              intro ordered
              simp only [Bool.and_eq_true, Bool.not_eq_true'] at failed
              obtain ⟨-, trns, tnl⟩ := (follows ordered).obliging.2 failed.1.1
              rw [trns, tnl] at failed
              cases failed.2
            · refine Or.inl ⟨k₁, rfl, ?_, ?_, fun ordered => (followed ordered).2⟩
              · rw [changed.2 _ (not_isMnp_hoaRoute _ _)]
                exact hoaSet
              · exact routed.write_mnps rfl _
  · rw [if_neg stays]
    have goes : ∀ c ∈ rest, c.tunnel = b.tunnel → c.peerAddr ≠ b.peerAddr :=
      fun c member isTunnel => apart c member (Or.inl isTunnel)
    have comes : ∀ c ∈ rest, c.tunnel = newIf → c.peerAddr ≠ b.peerAddr :=
      fun c member isTunnel => apart c member (Or.inr isTunnel)
    obtain ⟨data, deleted⟩ := ok.tnlDel goes peer mnps newIf
    have split : homeTnlDel b.tunnel newIf (k, p) = ((homeTnlDel b.tunnel newIf (k, p)).1,
        { p with bce := { p.bce with tunnel := newIf } }) := Prod.ext rfl data
    rw [split]
    rcases @KernelOk.tnlAdd orderly conf a _ rest b { p with bce := { p.bce with tunnel := newIf } }
        deleted newIf positive comes peer follows b.tunnel with
      ⟨k', added, isSet, after⟩ | ⟨k', p', undone, isBce, after, notOrderly⟩
    · exact Or.inl ⟨k', added, isSet, after⟩
    · refine Or.inr ⟨k', p', undone, ?_, ?_, notOrderly⟩
      · rw [isBce, ← tunnel]
      · exact @Routed.retunnel _ _ _ { b with tunnel := 0 } after.routed (lt_irrefl 0) b.tunnel

end Callbacks

section Agreement
variable (conf : HaRegConf) (a : Answers) (oldIf newIf : Nat) (k : Kernel) (p : HomeTnlOpsParm)

/-- `0` or `-1`. -/
def ret (done : Bool) : Int := if done then 0 else -1

/-- The answers to `home_tnl_chg` as `PrefixLists` takes them. -/
def tnlEnv : HomeTnlEnv where
  useMnHaIpsec := conf.useMnHaIpsec
  nemoExplicit := p.bce.nemoType = .explicit
  sameCoa := p.bce.oldCoa = p.bce.coa
  addMnpRoutes := ret (homeTnlMnps a newIf k p).2
  trnsUpdate := ret a.trnsUpdate
  tnlUpdate := ret a.tnlUpdate
  tnlAdd := ret (homeTnlAdd conf a oldIf newIf (homeTnlDel oldIf newIf (k, p))).2
  tnlAddStatus := (homeTnlAdd conf a oldIf newIf (homeTnlDel oldIf newIf (k, p))).1.2.baStatus

theorem ret_neg (done : Bool) : ret done < 0 ↔ done = false := by
  cases done <;> simp [ret]

theorem homeTnlAdd_status (oldIf newIf : Int) (data : TnlData)
    (added : (homeTnlAdd conf a oldIf newIf data).2 = true) :
    (homeTnlAdd conf a oldIf newIf data).1.2.baStatus = data.2.baStatus := by
  obtain ⟨k, p⟩ := data
  simp only [homeTnlAdd] at added ⊢
  generalize nemoHaAddMnpRoutes a.takes p.bce.mobNetPrefixes newIf true k p.mobNetPrefixes =
    result at added ⊢
  obtain ⟨k₁, _ | _⟩ := result
  · cases added
  · simp only at added ⊢
    generalize k₁.routeAdd a.takes (hoaRoute newIf p.bce.peerAddr) = result at added ⊢
    obtain ⟨k₂, _ | _⟩ := result
    · cases added
    · simp only at added ⊢
      split at added
      · cases added
      · rename_i answered
        rw [if_neg answered]

/-- `home_tnl_chg` answers as it does with the comparison and the calls alone. -/
theorem homeTnlChg_agrees :
    (homeTnlChg conf a oldIf newIf (k, p)).1.2.baStatus =
        (PrefixLists.homeTnlChg (tnlEnv conf a oldIf newIf k p) oldIf newIf
          (stored p.bce.mobNetPrefixes) (stored p.mobNetPrefixes) p.baStatus).baStatus ∧
      ((homeTnlChg conf a oldIf newIf (k, p)).2 = false ↔
        (PrefixLists.homeTnlChg (tnlEnv conf a oldIf newIf k p) oldIf newIf
          (stored p.bce.mobNetPrefixes) (stored p.mobNetPrefixes) p.baStatus).ret < 0) := by
  by_cases stays : oldIf = newIf
  · subst stays
    have answers : ∀ calls, migrate (tnlEnv conf a oldIf oldIf k p) calls p.baStatus =
        ⟨(migrate (tnlEnv conf a oldIf oldIf k p) calls p.baStatus).calls, p.baStatus,
          ret (!(conf.useMnHaIpsec && p.bce.oldCoa ≠ p.bce.coa && !(a.trnsUpdate && a.tnlUpdate)))⟩ := by
      intro calls
      simp only [migrate, tnlEnv, ret_neg]
      cases conf.useMnHaIpsec <;> cases a.trnsUpdate <;> cases a.tnlUpdate <;>
        by_cases same : p.bce.oldCoa = p.bce.coa <;> simp [same, ret]
    simp only [homeTnlChg, PrefixLists.homeTnlChg, if_true]
    cases done : (homeTnlMnps a oldIf k p).2 with
    | false =>
        have split : homeTnlMnps a oldIf k p = ((homeTnlMnps a oldIf k p).1, false) := by
          rw [← done]
        have differ : prefixListCmp (stored p.bce.mobNetPrefixes) (stored p.mobNetPrefixes) = 0 := by
          by_contra equal
          rw [homeTnlMnps, if_neg equal] at done
          cases done
        have refused : (tnlEnv conf a oldIf oldIf k p).addMnpRoutes < 0 := (ret_neg _).mpr done
        rw [split, if_pos differ, if_pos refused]
        simp [tnlEnv, mnpStatus]
    | true =>
        have split : homeTnlMnps a oldIf k p = ((homeTnlMnps a oldIf k p).1, true) := by
          rw [← done]
        have taken : ¬ (tnlEnv conf a oldIf oldIf k p).addMnpRoutes < 0 := by
          rw [show (tnlEnv conf a oldIf oldIf k p).addMnpRoutes =
            ret (homeTnlMnps a oldIf k p).2 from rfl, ret_neg, done]
          exact Bool.false_ne_true.symm
        rw [split, if_neg taken]
        cases failed : conf.useMnHaIpsec && p.bce.oldCoa ≠ p.bce.coa &&
            !(a.trnsUpdate && a.tnlUpdate) with
        | true =>
            rw [failed] at answers
            simp only [if_true]
            split <;> rw [answers] <;> simp [ret]
        | false =>
            rw [failed] at answers
            simp only [Bool.false_eq_true, if_false]
            split <;> rw [answers] <;> simp [ret]
  · have other : ¬ (oldIf : Int) = newIf := fun same => stays (Int.ofNat_inj.mp same)
    simp only [homeTnlChg, PrefixLists.homeTnlChg, if_neg stays, if_neg other]
    have added := homeTnlAdd_status conf a oldIf newIf (homeTnlDel oldIf newIf (k, p))
    have answer : (tnlEnv conf a oldIf newIf k p).tnlAdd =
        ret (homeTnlAdd conf a oldIf newIf (homeTnlDel oldIf newIf (k, p))).2 := rfl
    rw [answer]
    cases done : (homeTnlAdd conf a oldIf newIf (homeTnlDel oldIf newIf (k, p))).2 with
    | false =>
        rw [if_pos (show ret false < 0 by decide)]
        exact ⟨rfl, iff_of_true rfl (show (-1 : Int) < 0 by decide)⟩
    | true =>
        rw [if_neg (show ¬ ret true < 0 by decide)]
        exact ⟨added done, iff_of_false Bool.false_ne_true.symm (lt_irrefl (0 : Int))⟩

end Agreement
end OaiPmip.HomeReg
