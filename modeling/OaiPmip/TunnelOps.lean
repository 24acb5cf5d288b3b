import OaiPmip.Lib.Refcount
import OaiPmip.TunnelMod

/-!
# Tunnels with a callback: tunnel_add, tunnel_del and tunnel_mod

The callers of tunnelctl.c set up routes and policies in a callback, which is asked
with the table half changed and whose refusal is undone.  The references to the
tunnels are counted over the whole of an operation, and the end points followed.
-/

set_option autoImplicit false

namespace OaiPmip.TunnelCtl

open OaiPmip.ChainTable OaiPmip.HashChains OaiPmip.HashKeys OaiPmip.Refcount

attribute [local instance] tnlBuckets_neZero

def joinTnl (c : TunnelCtl) (env : TunnelEnv) (local_ remote : In6Addr) (link : Int) :
    TunnelCtl × Option Ptr :=
  match ChainTable.get (calcAddrHash tnlBuckets) c.tnlKey c.tnlHash
      (addrKey .doubleAddr local_ remote) with
  | some tnl => (c.setUsers tnl ((c.heap tnl).users + 1), some tnl)
  | none => c.createTnl env local_ remote link

/-- What `tunnel_mod` has freed and which tunnel it goes on with. -/
def moveTnl (c : TunnelCtl) (env : ModEnv) (old : Ptr) (local_ remote : In6Addr) (link : Int) :
    TunnelCtl × List Ptr × Option Ptr :=
  match ChainTable.get (calcAddrHash tnlBuckets) c.tnlKey c.tnlHash
      (addrKey .doubleAddr local_ remote) with
  | some new =>
      if new ≠ old then (c.setUsers new ((c.heap new).users + 1), [], some new)
      else (c, [], some old)
  | none =>
      if (c.heap old).users = 1 then
        let changed := c.changeTnl env old local_ remote link
        if changed.ret < 0 then
          match changed.ctl.createTnl env.created local_ remote link with
          | (c, new) => (c, changed.freed, new)
        else (changed.ctl, [], some old)
      else (c, [], some old)

/-! ## The operations -/

section Ops
variable {State : Type}

/-- `ext_tunnel_ops` with the old and the new interface. -/
abbrev ExtTunnelOps (State : Type) := Int → Int → State → Except ModFault (State × Bool)

def tunnelAddOps (ops : ExtTunnelOps State) (c : TunnelCtl) (env : TunnelEnv)
    (local_ remote : In6Addr) (link : Int) (data : State) :
    Except ModFault (TunnelCtl × State × Int) :=
  match c.joinTnl env local_ remote link with
  | (c, none) => .ok (c, data, -1)
  | (c, some tnl) => do
      let (data, accepted) ← ops 0 (c.heap tnl).ifindex data
      if accepted then .ok (c, data, (c.heap tnl).ifindex)
      else .ok (c.releaseTnl tnl, data, -1)

def tunnelDelOps (ops : ExtTunnelOps State) (c : TunnelCtl) (ifindex : Int) (data : State) :
    Except ModFault (TunnelCtl × State × Int) :=
  match c.getTnl ifindex with
  | none => .ok (c, data, -1)
  | some tnl => do
      let (data, _) ← ops (c.heap tnl).ifindex 0 data
      .ok (c.releaseTnl tnl, data, 0)

def tunnelModOps (ops : ExtTunnelOps State) (c : TunnelCtl) (env : ModEnv) (ifindex : Int)
    (local_ remote : In6Addr) (link : Int) (data : State) :
    Except ModFault (TunnelCtl × State × Int) :=
  match c.getTnl ifindex with
  | none => .error .assertFailed
  | some old =>
      match c.moveTnl env old local_ remote link with
      | (c, _, none) => .ok (c, data, -1)
      | (c, freed, some new) =>
          if old ∈ freed then .error .useAfterFree
          else do
            let (data, accepted) ← ops (c.heap old).ifindex (c.heap new).ifindex data
            if accepted then
              .ok (if old ≠ new then c.releaseTnl old else c, data, (c.heap new).ifindex)
            else .ok (if old ≠ new then c.releaseTnl new else c, data, -1)

/-- Without a callback, or with one that always accepts, these are `tunnel_add` and
`tunnel_del` as they stand. -/
theorem tunnelAddOps_accepting (c : TunnelCtl) (env : TunnelEnv) (l r : In6Addr) (link : Int)
    (data : State) : tunnelAddOps (fun _ _ data => .ok (data, true)) c env l r link data =
      .ok ((c.tunnelAdd env l r link).1, data, (c.tunnelAdd env l r link).2) := by
  simp only [tunnelAddOps, joinTnl, tunnelAdd]
  cases found : ChainTable.get (calcAddrHash tnlBuckets) c.tnlKey c.tnlHash
      (addrKey .doubleAddr l r) with
  | some tnl => simp [bind, Except.bind, (setUsers_heap c tnl tnl _).2.2]
  | none =>
      cases created : c.createTnl env l r link with
      | mk c' new =>
          cases new with
          | none => rfl
          | some tnl => rfl

theorem tunnelDelOps_accepting (c : TunnelCtl) (ifindex : Int) (data : State) :
    tunnelDelOps (fun _ _ data => .ok (data, true)) c ifindex data =
      .ok ((c.tunnelDel ifindex).1, data, (c.tunnelDel ifindex).2) := by
  simp only [tunnelDelOps, tunnelDel]
  cases found : c.getTnl ifindex with
  | none => rfl
  | some tnl => rfl

theorem finishMod_eq (c : TunnelCtl) (env : ModEnv) (old new : Ptr) (data : State) :
    (if env.ext then
      Except.ok (if old ≠ new then c.releaseTnl old else c, data, (c.heap new).ifindex)
    else .ok (if old ≠ new then c.releaseTnl new else c, data, -1)) =
      (Except.ok (c.finishMod env old new) : Except ModFault ModResult).map
        fun result => (result.ctl, data, result.ret) := by
  simp only [finishMod]
  cases env.ext with
  | true =>
      by_cases same : old ≠ new
      · simp only [if_true, if_pos same, Except.map]
      · simp only [if_true, if_neg same, Except.map]
  | false =>
      by_cases same : old ≠ new
      · simp only [Bool.false_eq_true, if_false, if_pos same, Except.map]
      · simp only [Bool.false_eq_true, if_false, if_neg same, Except.map]

theorem tunnelMod_eq (c : TunnelCtl) (env : ModEnv) (ifindex : Int) (l r : In6Addr) (link : Int) :
    c.tunnelMod env ifindex l r link =
      match c.getTnl ifindex with
      | none => .error .assertFailed
      | some old =>
          match c.moveTnl env old l r link with
          | (c, freed, none) => .ok ⟨c, freed, -1⟩
          | (c, freed, some new) =>
              if old ∈ freed then .error .useAfterFree else .ok (c.finishMod env old new) := by
  simp only [tunnelMod]
  cases found : c.getTnl ifindex with
  | none => rfl
  | some old =>
      simp only [moveTnl]
      cases hashed : ChainTable.get (calcAddrHash tnlBuckets) c.tnlKey c.tnlHash
          (addrKey .doubleAddr l r) with
      | some new =>
          by_cases same : new ≠ old
          · simp only [if_pos same, List.not_mem_nil, if_false]
          · simp only [if_neg same, List.not_mem_nil, if_false]
      | none =>
          by_cases single : (c.heap old).users = 1
          · by_cases failed : (c.changeTnl env old l r link).ret < 0
            · simp only [if_pos single, if_pos failed]
              cases created : (c.changeTnl env old l r link).ctl.createTnl env.created l r link with
              | mk c' new =>
                  cases new with
                  | none => rfl
                  | some new => rfl
            · simp only [if_pos single, if_neg failed, List.not_mem_nil, if_false]
          · simp only [if_neg single, List.not_mem_nil, if_false]

theorem tunnelModOps_answering (c : TunnelCtl) (env : ModEnv) (ifindex : Int) (l r : In6Addr)
    (link : Int) (data : State) :
    tunnelModOps (fun _ _ data => .ok (data, env.ext)) c env ifindex l r link data =
      (c.tunnelMod env ifindex l r link).map fun result => (result.ctl, data, result.ret) := by
  rw [tunnelMod_eq]
  simp only [tunnelModOps]
  cases found : c.getTnl ifindex with
  | none => rfl
  | some old =>
      simp only
      cases moved : c.moveTnl env old l r link with
      | mk c' rest =>
          obtain ⟨freed, new⟩ := rest
          cases new with
          | none => rfl
          | some new =>
              by_cases gone : old ∈ freed
              · simp only [if_pos gone]
                rfl
              · simp only [if_neg gone]
                exact finishMod_eq c' env old new data

end Ops

/-! ## References to tunnels -/

structure Counted (c : TunnelCtl) (refs : List Int) : Prop where
  listed : Listed c
  counts : Counts (fun i => (c.tunnelAt i).map Mip6Tnl.users) refs

def endsAt (c : TunnelCtl) (i : Int) : Option (In6Addr × In6Addr) :=
  (c.tunnelAt i).map fun t => (t.laddr, t.raddr)

section Counted
variable {c c' : TunnelCtl} {refs refs' : List Int} {i : Int} {l r : In6Addr}

theorem Counted.init : Counted TunnelCtl.init [] :=
  ⟨ok_init.listed, Counts.nothing fun _ => rfl⟩

theorem Counted.perm (counted : Counted c refs) (same : refs.Perm refs') : Counted c refs' :=
  ⟨counted.listed, counted.counts.perm same⟩

theorem Counted.tunnel (counted : Counted c refs) (member : i ∈ refs) :
    ∃ p ∈ c.tnlList, c.getTnl i = some p ∧ (c.heap p).ifindex = i ∧ 0 < i := by
  obtain ⟨n, isUsed, -⟩ := counted.counts.used member
  obtain ⟨t, found, -⟩ := Option.map_eq_some_iff.mp isUsed
  obtain ⟨p, here, -⟩ := Option.map_eq_some_iff.mp found
  obtain ⟨inList, index⟩ := getTnl_some here
  exact ⟨p, inList, here, index, index ▸ counted.listed.positive p inList⟩

theorem Unmoved.tunnelAt (unmoved : Unmoved c c') (i : Int) : c'.tunnelAt i = c.tunnelAt i := by
  have found : c'.getTnl i = c.getTnl i := by
    simp only [getTnl, unmoved.list]
    refine List.find?_congr fun p member => ?_
    rw [unmoved.records p member]
  simp only [TunnelCtl.tunnelAt, found]
  cases here : c.getTnl i with
  | none => rfl
  | some p => rw [Option.map_some, Option.map_some, unmoved.records p (getTnl_some here).1]

theorem Unmoved.listed (unmoved : Unmoved c c') (indexed : Indexed c') (listed : Listed c) :
    Listed c' where
  toIndexed := indexed
  indices := by
    intro p member q member'
    rw [unmoved.list] at member member'
    rw [unmoved.records p member, unmoved.records q member']
    exact listed.indices p member q member'
  positive := by
    intro p member
    rw [unmoved.list] at member
    rw [unmoved.records p member]
    exact listed.positive p member
  users := by
    intro p member
    rw [unmoved.list] at member
    rw [unmoved.records p member]
    exact listed.users p member

theorem Counted.unmoved (counted : Counted c refs) (unmoved : Unmoved c c')
    (indexed : Indexed c') : Counted c' refs ∧ c'.endsAt = c.endsAt := by
  refine ⟨⟨unmoved.listed indexed counted.listed, counted.counts.congr fun i => ?_⟩, ?_⟩
  · rw [unmoved.tunnelAt]
  · funext i
    simp only [endsAt, unmoved.tunnelAt]

theorem Counted.joined (counted : Counted c refs) {new : Ptr} (joined : Joined c c' new l r)
    (kept : (c.tunnelAt (c'.heap new).ifindex).isSome →
      c.endsAt (c'.heap new).ifindex = some (l, r)) :
    Counted c' ((c'.heap new).ifindex :: refs) ∧
      c'.endsAt (c'.heap new).ifindex = some (l, r) ∧
        ∀ i ∈ refs, c'.endsAt i = c.endsAt i := by
  have here := tunnelAt_of_mem joined.listed joined.member
  have ends : c'.endsAt (c'.heap new).ifindex = some (l, r) := by
    simp only [endsAt, here, Option.map_some, joined.ends.1, joined.ends.2]
  refine ⟨⟨joined.listed, counted.counts.add ?_ ?_⟩, ends, ?_⟩
  · simp only [here, Option.map_some, joined.users]
  · intro i other
    simp only [joined.others i other]
  · intro i member
    by_cases same : i = (c'.heap new).ifindex
    · obtain ⟨p, inList, found, -⟩ := counted.tunnel member
      have isSome : (c.tunnelAt i).isSome = true := by
        simp only [TunnelCtl.tunnelAt, found, Option.map_some, Option.isSome_some]
      rw [same] at isSome ⊢
      rw [ends, kept isSome]
    · simp only [endsAt, joined.others i same]

theorem Counted.release (counted : Counted c (i :: refs)) {p : Ptr} (member : p ∈ c.tnlList)
    (index : (c.heap p).ifindex = i) :
    Counted (c.releaseTnl p) refs ∧ ∀ j ∈ refs, (c.releaseTnl p).endsAt j = c.endsAt j := by
  obtain ⟨listed, at_, -⟩ := releaseTnl_spec counted.listed member
  have here : c.tunnelAt i = some (c.heap p) := index ▸ tunnelAt_of_mem counted.listed member
  have released : Counted (c.releaseTnl p) refs := by
    refine ⟨listed, counted.counts.drop ?_ ?_⟩
    · simp only [at_, index, if_true, here, Option.map_some, Option.bind_some, oneLess]
      split
      · rfl
      · rfl
    · intro j other
      simp only [at_, index, if_neg other]
  refine ⟨released, ?_⟩
  intro j inRefs
  by_cases same : j = i
  · subst same
    obtain ⟨n, isUsed, -⟩ := released.counts.used inRefs
    simp only [at_, index, if_true, oneLess] at isUsed
    simp only [endsAt, at_, index, if_true, here, oneLess]
    split at isUsed
    · cases isUsed
    · rename_i more
      rw [if_neg more]
      rfl
  · simp only [endsAt, at_, index, if_neg same]

theorem joinTnl_spec (counted : Counted c refs) {env : TunnelEnv}
    (fresh : ∀ i ∈ env.ifindex, NewIndex c i) (l r : In6Addr) (link : Int) :
    (∃ c', c.joinTnl env l r link = (c', none) ∧ Counted c' refs ∧ c'.endsAt = c.endsAt) ∨
      ∃ c' new, c.joinTnl env l r link = (c', some new) ∧ new ∈ c'.tnlList ∧
        Counted c' ((c'.heap new).ifindex :: refs) ∧
        c'.endsAt (c'.heap new).ifindex = some (l, r) ∧ ∀ i ∈ refs, c'.endsAt i = c.endsAt i := by
  simp only [joinTnl]
  cases hashed : ChainTable.get (calcAddrHash tnlBuckets) c.tnlKey c.tnlHash
      (addrKey .doubleAddr l r) with
  | some new =>
      right
      obtain ⟨member, key⟩ := counted.listed.paired.get_eq_some.mp hashed
      have ends := ends_of_key key
      have joined := joined_existing counted.listed member ends
      refine ⟨_, new, rfl, joined.member, counted.joined joined ?_⟩
      intro _
      rw [(setUsers_heap c new new _).2.2]
      simp only [endsAt, tunnelAt_of_mem counted.listed member, Option.map_some, ends.1, ends.2]
  | none =>
      have absent : Absent c l r := counted.listed.paired.get_eq_none.mp hashed
      rcases createTnl_cases counted.listed.toIndexed absent env link with
        ⟨i, created, made⟩ | ⟨c', made, unmoved, indexed⟩
      · right
        have joined := joined_created counted.listed absent (fresh i created) link
        refine ⟨_, c.top, made, joined.member, counted.joined joined ?_⟩
        intro isSome
        rw [withTnl_heap_top] at isSome
        obtain ⟨t, found⟩ := Option.isSome_iff_exists.mp isSome
        obtain ⟨q, member, index, -⟩ := (tunnelAt_eq_some counted.listed).mp found
        exact absurd index ((fresh i created).2 q member)
      · left
        exact ⟨c', made, counted.unmoved unmoved indexed⟩

/-- The end points of a tunnel can be changed: there is a tunnel between them, or the
tunnel has one user. -/
def Movable (c : TunnelCtl) (i : Int) (l r : In6Addr) : Prop :=
  ¬ Absent c l r ∨ (c.tunnelAt i).map Mip6Tnl.users = some 1

/-- What `tunnel_mod` goes on with: no tunnel; another one; or the same, which leads
to the new end unless others keep it where it is. -/
inductive Moving (c : TunnelCtl) (i : Int) (refs : List Int) (l r : In6Addr) (old : Ptr)
    (c' : TunnelCtl) : Option Ptr → Prop where
  | failed (counted : Counted c' (i :: refs)) (ends : c'.endsAt = c.endsAt) :
      Moving c i refs l r old c' none
  | other (new : Ptr) (different : old ≠ new) (member : new ∈ c'.tnlList)
      (counted : Counted c' ((c'.heap new).ifindex :: i :: refs))
      (apart : (c'.heap new).ifindex ≠ i) (here : c'.endsAt (c'.heap new).ifindex = some (l, r))
      (ends : ∀ j ∈ i :: refs, c'.endsAt j = c.endsAt j) : Moving c i refs l r old c' (some new)
  | same (counted : Counted c' (i :: refs)) (ends : ∀ j ∈ refs, c'.endsAt j = c.endsAt j)
      (here : c'.endsAt i = some (l, r) ∨ c'.endsAt i = c.endsAt i ∧ ¬ Movable c i l r) :
      Moving c i refs l r old c' (some old)

theorem moveTnl_spec (counted : Counted c (i :: refs)) {env : ModEnv} (node : env.node = true)
    (fresh : ∀ j ∈ env.created.ifindex, NewIndex c j) {old : Ptr} (found : c.getTnl i = some old)
    (l r : In6Addr) (link : Int) :
    ∃ c' new, c.moveTnl env old l r link = (c', [], new) ∧ old ∈ c'.tnlList ∧
      (c'.heap old).ifindex = i ∧ Moving c i refs l r old c' new := by
  obtain ⟨oldMember, index⟩ := getTnl_some found
  have atOld : c.tunnelAt i = some (c.heap old) := index ▸ tunnelAt_of_mem counted.listed oldMember
  simp only [moveTnl]
  cases hashed : ChainTable.get (calcAddrHash tnlBuckets) c.tnlKey c.tnlHash
      (addrKey .doubleAddr l r) with
  | some new =>
      obtain ⟨member, key⟩ := counted.listed.paired.get_eq_some.mp hashed
      have ends := ends_of_key key
      by_cases same : new = old
      · subst same
        refine ⟨c, some new, by simp, member, index, Moving.same counted (fun _ _ => rfl) ?_⟩
        left
        simp only [endsAt, atOld, Option.map_some, ends.1, ends.2]
      · have joined := joined_existing counted.listed member ends
        have newIndex : ((c.setUsers new ((c.heap new).users + 1)).heap new).ifindex =
            (c.heap new).ifindex := (setUsers_heap c new new _).2.2
        obtain ⟨after, here, others⟩ := counted.joined joined fun _ => by
          rw [newIndex]
          simp only [endsAt, tunnelAt_of_mem counted.listed member, Option.map_some, ends.1, ends.2]
        refine ⟨c.setUsers new ((c.heap new).users + 1), some new, by simp [same], oldMember, ?_,
          Moving.other new (Ne.symm same) joined.member after ?_ here others⟩
        · rw [(setUsers_heap c new old _).2.2, index]
        · rw [newIndex, ← index]
          exact fun equal => same (counted.listed.indices new member old oldMember equal)
  | none =>
      have absent : Absent c l r := counted.listed.paired.get_eq_none.mp hashed
      by_cases single : (c.heap old).users = 1
      · simp only [if_pos single]
        cases changed : env.changed with
        | true =>
            rw [changeTnl_done counted.listed.toIndexed oldMember absent changed node]
            have positive := counted.listed.positive old oldMember
            have kept : ¬ (c.heap old).ifindex < 0 := by omega
            have at_ := @tunnelAt_changedTnl c old l r link counted.listed oldMember absent
            rw [index] at at_
            refine ⟨c.changedTnl old l r link, some old, by simp only [if_neg kept], oldMember, ?_,
              Moving.same ?_ ?_ ?_⟩
            · rw [changedTnl_heap, if_pos rfl]
              exact index
            · refine ⟨counted.listed.changedTnl oldMember absent, counted.counts.congr ?_⟩
              intro j
              rw [at_]
              split
              · rename_i isHere
                rw [isHere, atOld]
                rfl
              · rfl
            · -- the only reference to the tunnel is the one that moves
              intro j member
              have one : (c.tunnelAt i).map Mip6Tnl.users = some 1 := by
                rw [atOld, Option.map_some, single]
              have other : j ≠ i := fun isHere => counted.counts.single one (isHere ▸ member)
              simp only [endsAt, at_, if_neg other]
            · left
              simp only [endsAt, at_, if_true, Option.map_some]
        | false =>
            rw [changeTnl_refused changed]
            simp only [Int.reduceNeg, Int.reduceLT, if_true]
            rcases createTnl_cases counted.listed.toIndexed absent env.created link with
              ⟨j, created, made⟩ | ⟨c', made, unmoved, indexed⟩
            · have joined := joined_created counted.listed absent (fresh j created) link
              have isNew := fresh j created
              rw [made]
              obtain ⟨after, here, others⟩ := counted.joined joined fun isSome => by
                rw [withTnl_heap_top] at isSome
                obtain ⟨t, at_⟩ := Option.isSome_iff_exists.mp isSome
                obtain ⟨q, member, same, -⟩ := (tunnelAt_eq_some counted.listed).mp at_
                exact absurd same (isNew.2 q member)
              have different : old ≠ c.top := fun same =>
                top_notMem counted.listed.toIndexed (same ▸ oldMember)
              refine ⟨c.withTnl ⟨l, r, link, j, 1⟩, some c.top, rfl,
                (mem_withTnl c _ old).mpr (.inl oldMember), ?_,
                Moving.other c.top different joined.member after ?_ here others⟩
              · rw [withTnl_heap counted.listed.toIndexed _ oldMember, index]
              · rw [withTnl_heap_top, ← index]
                exact fun same => isNew.2 old oldMember same.symm
            · rw [made]
              obtain ⟨after, ends⟩ := counted.unmoved unmoved indexed
              refine ⟨c', none, rfl, unmoved.list ▸ oldMember, ?_, Moving.failed after ends⟩
              rw [unmoved.records old oldMember, index]
      · simp only [if_neg single]
        refine ⟨c, some old, rfl, oldMember, index, Moving.same counted (fun _ _ => rfl) ?_⟩
        right
        refine ⟨rfl, ?_⟩
        intro movable
        rcases movable with present | one
        · exact present absent
        · rw [atOld, Option.map_some, Option.some.injEq] at one
          exact single one

variable {State : Type}

/-- `tunnel_add` fails, or asks its callback with a reference to the tunnel that it
gives back on a refusal. -/
theorem tunnelAddOps_cases (counted : Counted c refs) {env : TunnelEnv}
    (fresh : ∀ i ∈ env.ifindex, NewIndex c i) (ops : ExtTunnelOps State) (l r : In6Addr)
    (link : Int) (data : State) :
    (∃ c', tunnelAddOps ops c env l r link data = .ok (c', data, -1) ∧ Counted c' refs ∧
      c'.endsAt = c.endsAt) ∨
    ∃ i c₁ c₂, 0 < i ∧ tunnelAddOps ops c env l r link data = (do
        let (data, accepted) ← ops 0 i data
        if accepted then .ok (c₁, data, i) else .ok (c₂, data, -1)) ∧
      Counted c₁ (i :: refs) ∧ c₁.endsAt i = some (l, r) ∧
      (∀ j ∈ refs, c₁.endsAt j = c.endsAt j) ∧
      Counted c₂ refs ∧ ∀ j ∈ refs, c₂.endsAt j = c.endsAt j := by
  rcases joinTnl_spec counted fresh l r link with
    ⟨c', joined, after, ends⟩ | ⟨c', new, joined, member, after, here, ends⟩
  · left
    refine ⟨c', ?_, after, ends⟩
    simp only [tunnelAddOps, joined]
  · right
    obtain ⟨left_, kept⟩ := after.release member rfl
    refine ⟨(c'.heap new).ifindex, c', c'.releaseTnl new, after.listed.positive new member, ?_,
      after, here, ends, left_, ?_⟩
    · simp only [tunnelAddOps, joined]
    · exact fun j inRefs => (kept j inRefs).trans (ends j inRefs)

theorem tunnelDelOps_cases (counted : Counted c (i :: refs)) (ops : ExtTunnelOps State)
    (data : State) :
    ∃ c', 0 < i ∧ tunnelDelOps ops c i data = (do
        let (data, _) ← ops i 0 data
        .ok (c', data, 0)) ∧
      Counted c' refs ∧ ∀ j ∈ refs, c'.endsAt j = c.endsAt j := by
  obtain ⟨p, member, found, index, positive⟩ := counted.tunnel List.mem_cons_self
  refine ⟨c.releaseTnl p, positive, ?_, counted.release member index⟩
  simp only [tunnelDelOps, found, index]

/-- `tunnel_mod` of a reference fails, asks its callback whether to move to another
tunnel, or asks it with the same one. -/
theorem tunnelModOps_cases (counted : Counted c (i :: refs)) {env : ModEnv}
    (node : env.node = true) (fresh : ∀ j ∈ env.created.ifindex, NewIndex c j)
    (ops : ExtTunnelOps State) (l r : In6Addr) (link : Int) (data : State) :
    (∃ c', tunnelModOps ops c env i l r link data = .ok (c', data, -1) ∧
      Counted c' (i :: refs) ∧ c'.endsAt = c.endsAt) ∨
    (∃ j c₁ c₂, 0 < j ∧ j ≠ i ∧ tunnelModOps ops c env i l r link data = (do
        let (data, accepted) ← ops i j data
        if accepted then .ok (c₁, data, j) else .ok (c₂, data, -1)) ∧
      Counted c₁ (j :: refs) ∧ c₁.endsAt j = some (l, r) ∧
      (∀ k ∈ refs, c₁.endsAt k = c.endsAt k) ∧
      Counted c₂ (i :: refs) ∧ ∀ k ∈ i :: refs, c₂.endsAt k = c.endsAt k) ∨
    ∃ c', tunnelModOps ops c env i l r link data = (do
        let (data, accepted) ← ops i i data
        if accepted then .ok (c', data, i) else .ok (c', data, -1)) ∧
      Counted c' (i :: refs) ∧ (∀ k ∈ refs, c'.endsAt k = c.endsAt k) ∧
      (c'.endsAt i = some (l, r) ∨ c'.endsAt i = c.endsAt i ∧ ¬ Movable c i l r) := by
  obtain ⟨old, oldMember, found, -⟩ := counted.tunnel List.mem_cons_self
  obtain ⟨c', new, moved, member, index, moving⟩ := moveTnl_spec counted node fresh found l r link
  cases moving with
  | failed after ends =>
      left
      refine ⟨c', ?_, after, ends⟩
      simp only [tunnelModOps, found, moved]
  | other new different newMember after apart here ends =>
      right
      left
      have positive := after.listed.positive new newMember
      obtain ⟨left_, leftEnds⟩ := (after.perm (List.Perm.swap i _ refs)).release member index
      obtain ⟨back, backEnds⟩ := after.release newMember rfl
      refine ⟨(c'.heap new).ifindex, c'.releaseTnl old, c'.releaseTnl new, positive, apart, ?_,
        left_, ?_, ?_, back, ?_⟩
      · simp only [tunnelModOps, found, moved, List.not_mem_nil, if_false, index, different, ne_eq,
          not_false_eq_true, if_true]
      · rw [leftEnds _ List.mem_cons_self, here]
      · intro k inRefs
        rw [leftEnds k (List.mem_cons_of_mem _ inRefs), ends k (List.mem_cons_of_mem i inRefs)]
      · exact fun k inRefs => (backEnds k inRefs).trans (ends k inRefs)
  | same after ends here =>
      right
      right
      refine ⟨c', ?_, after, ends, here⟩
      simp only [tunnelModOps, found, moved, List.not_mem_nil, if_false, index, ne_eq,
        not_true_eq_false]

end Counted

end OaiPmip.TunnelCtl
