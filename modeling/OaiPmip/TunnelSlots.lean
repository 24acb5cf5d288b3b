import OaiPmip.Lib.Runs
import OaiPmip.PmipTunnel
import OaiPmip.TunnelMod

/-!
# The records of g_tunnel_timer_table

Any sequence of `pmip_tunnel_add`, `pmip_tunnel_del` and `pmip_tunnel_set_timer`.
A record is free while its remote end is unspecified; it is found by its remote
end, in `pmip_tunnel_del` by its tunnel, and it is never given back.
-/

set_option autoImplicit false

namespace OaiPmip.TunnelSlots

open OaiPmip.ChainTable OaiPmip.HashKeys OaiPmip.Runs OaiPmip.TunnelCtl OaiPmip.Tunnels

inductive SlotCall where
  | add (local_ remote : In6Addr) (link : Int) (env : TunnelEnv)
  | del (tunnel : Int) (now : Timespec)
  | setTimer (remote : In6Addr) (now timeOut : Timespec)

def step (conf : Conf) (t : Tunnels) : SlotCall → Except Crash Tunnels
  | .add local_ remote link env => (t.pmipTunnelAdd conf env local_ remote link).map Prod.fst
  | .del tunnel now => (t.pmipTunnelDel conf now tunnel).map Prod.fst
  | .setTimer remote now timeOut => t.pmipTunnelSetTimer now remote timeOut

theorem map_fst_ok {x : Except Crash (Tunnels × Int)} {t : Tunnels} :
    x.map Prod.fst = .ok t ↔ ∃ index, x = .ok (t, index) := by
  cases x with
  | error crash => simp [Except.map]
  | ok pair =>
      obtain ⟨t', index⟩ := pair
      simp [Except.map]

def HasSlot (t : Tunnels) (remote : In6Addr) : Prop :=
  ∃ mag, (t.timers mag).remote = remote ∨ (t.timers mag).remote = in6addrAny

/-- A tunnel to the unspecified address, whose record counted as free and has
been given to another tunnel. -/
def LostRecord (t : Tunnels) (tunnel : Int) : Prop :=
  (∃ p, t.ctl.getTnl tunnel = some p ∧ (t.ctl.heap p).raddr = in6addrAny) ∧
    ∀ mag, (t.timers mag).tunnel ≠ tunnel

def Distinct (t : Tunnels) : Prop :=
  ∀ mag mag', (t.timers mag).remote ≠ in6addrAny →
    (t.timers mag).remote = (t.timers mag').remote → mag = mag'

/-- What is claimed of a call: the table is not indexed by -1, the assertion
holds, and without a record for the remote end an addition fails and changes
nothing. -/
structure Handled (conf : Conf) (t : Tunnels) (call : SlotCall) : Prop where
  indexed : step conf t call ≠ .error .tableIndex
  asserted : step conf t call ≠ .error .assertFailed
  refused : ∀ local_ remote link env, call = .add local_ remote link env →
    conf.tunnelingEnabled = true → ¬ HasSlot t remote →
    ∃ index, index < 0 ∧ t.pmipTunnelAdd conf env local_ remote link = .ok (t, index)

/-- The remote end of an addition or a timer has a record or can have one, and
the last user of a tunnel to the unspecified address does not leave once its
record is lost. -/
def Slotted (conf : Conf) (t : Tunnels) : SlotCall → Prop
  | .add _ remote _ _ => conf.tunnelingEnabled = true → HasSlot t remote
  | .del tunnel _ => conf.tunnelingEnabled = true → conf.dynamicTunnelingEnabled = true →
      0 < tunnel → t.ctl.tunnelGetusers tunnel = 1 → ¬ LostRecord t tunnel
  | .setTimer remote _ _ => HasSlot t remote

/-- With dynamic tunnels all local ends are `conf.OurAddress`. -/
def Local (conf : Conf) (loc : In6Addr) : SlotCall → Prop
  | .add local_ _ _ _ => conf.dynamicTunnelingEnabled = true → local_ = loc
  | _ => True

section Search
variable {t : Tunnels} {r : In6Addr}

theorem index_some {mag : Fin pmipMaxMags} (found : t.pmipTunnelGetTimerIndex r = some mag) :
    (t.timers mag).remote = r ∨
      ((t.timers mag).remote = in6addrAny ∧ ∀ other, (t.timers other).remote ≠ r) := by
  simp only [pmipTunnelGetTimerIndex] at found
  split at found
  · rename_i other search
    cases found
    have here := List.find?_some search
    exact .inl (of_decide_eq_true here)
  · rename_i search
    refine .inr ⟨by simpa [isUnspecified] using List.find?_some found, fun other same => ?_⟩
    have missing := List.find?_eq_none.mp search other (List.mem_finRange other)
    simp [same] at missing

theorem index_none_iff : t.pmipTunnelGetTimerIndex r = none ↔ ¬ HasSlot t r := by
  constructor
  · intro missing slot
    obtain ⟨mag, isSlot⟩ := slot
    simp only [pmipTunnelGetTimerIndex] at missing
    split at missing
    · cases missing
    · rename_i search
      have notHere := List.find?_eq_none.mp search mag (List.mem_finRange mag)
      have notFree := List.find?_eq_none.mp missing mag (List.mem_finRange mag)
      simp only [decide_eq_true_eq, isUnspecified] at notHere notFree
      exact isSlot.elim notHere notFree
  · intro noSlot
    cases found : t.pmipTunnelGetTimerIndex r with
    | none => rfl
    | some mag =>
        refine absurd ⟨mag, ?_⟩ noSlot
        exact (index_some found).imp id And.left

theorem index_of_slot (slot : HasSlot t r) : ∃ mag, t.pmipTunnelGetTimerIndex r = some mag := by
  cases found : t.pmipTunnelGetTimerIndex r with
  | none => exact absurd slot (index_none_iff.mp found)
  | some mag => exact ⟨mag, rfl⟩

end Search

def slot (t : Tunnels) (mag : Fin pmipMaxMags) : In6Addr × Int :=
  ((t.timers mag).remote, (t.timers mag).tunnel)

section Timer
variable {t t' : Tunnels} {now timeOut : Timespec} {r : In6Addr}

theorem slot_setTimer (t : Tunnels) (mag : Fin pmipMaxMags) (timer : TunnelTimer)
    (other : Fin pmipMaxMags) :
    slot (t.setTimer mag timer) other =
      if other = mag then (timer.remote, timer.tunnel) else slot t other := by
  by_cases same : other = mag
  · subst same
    simp [slot, setTimer]
  · simp [slot, setTimer, same]

theorem slot_armTimer (t : Tunnels) (mag : Fin pmipMaxMags) (expires : Timespec)
    (other : Fin pmipMaxMags) : slot (t.armTimer mag expires) other = slot t other := by
  change slot (t.setTimer mag { t.timers mag with lifetime := expires }) other = _
  rw [slot_setTimer]
  split
  · rename_i same
    rw [same]
    rfl
  · rfl

theorem slot_recordTunnel (t : Tunnels) (env : TunnelEnv) (mag : Fin pmipMaxMags) (l r : In6Addr)
    (link : Int) (other : Fin pmipMaxMags) : slot (t.recordTunnel env mag l r link).1 other =
      if other = mag then (r, (t.ctl.tunnelAdd env l r link).2) else slot t other :=
  slot_setTimer { t with ctl := (t.ctl.tunnelAdd env l r link).1 } mag _ other

theorem remote_recordTunnel (t : Tunnels) (env : TunnelEnv) (mag : Fin pmipMaxMags)
    (l r : In6Addr) (link : Int) (other : Fin pmipMaxMags) :
    ((t.recordTunnel env mag l r link).1.timers other).remote =
      if other = mag then r else (t.timers other).remote := by
  have here := congrArg Prod.fst (slot_recordTunnel t env mag l r link other)
  rw [apply_ite Prod.fst] at here
  exact here

theorem setTimer_kept (set_ : t.pmipTunnelSetTimer now r timeOut = .ok t') :
    t'.ctl = t.ctl ∧ ∀ mag, slot t' mag = slot t mag := by
  simp only [pmipTunnelSetTimer] at set_
  split at set_
  · cases set_
  · split at set_
    · cases set_
      exact ⟨rfl, slot_armTimer _ _ _⟩
    · split at set_
      · cases set_
        exact ⟨rfl, slot_armTimer _ _ _⟩
      · cases set_
        exact ⟨rfl, fun _ => rfl⟩

theorem setTimer_ok_iff : (∃ next, t.pmipTunnelSetTimer now r timeOut = .ok next) ↔ HasSlot t r := by
  constructor
  · intro set_
    obtain ⟨next, ok⟩ := set_
    by_contra noSlot
    simp only [pmipTunnelSetTimer, index_none_iff.mpr noSlot] at ok
    cases ok
  · intro slot
    obtain ⟨mag, found⟩ := index_of_slot slot
    simp only [pmipTunnelSetTimer, found]
    split
    · exact ⟨_, rfl⟩
    · split
      · exact ⟨_, rfl⟩
      · exact ⟨_, rfl⟩

end Timer

/-- After `tunnel_add` a listed tunnel is the one that was asked for, with the
index that is returned, or an earlier one between other ends. -/
theorem tunnelAdd_records {c : TunnelCtl} (indexed : Indexed c) (env : TunnelEnv) (l r : In6Addr)
    (link : Int) :
    Indexed (c.tunnelAdd env l r link).1 ∧
      ∀ p ∈ (c.tunnelAdd env l r link).1.tnlList,
        (((c.tunnelAdd env l r link).1.heap p).laddr = l ∧
          ((c.tunnelAdd env l r link).1.heap p).raddr = r ∧
          ((c.tunnelAdd env l r link).1.heap p).ifindex = (c.tunnelAdd env l r link).2) ∨
        (p ∈ c.tnlList ∧ (c.tunnelAdd env l r link).1.heap p = c.heap p ∧
          ¬ ((c.heap p).laddr = l ∧ (c.heap p).raddr = r)) := by
  cases hashed : ChainTable.get (calcAddrHash tnlBuckets) c.tnlKey c.tnlHash
      (addrKey .doubleAddr l r) with
  | some q =>
      obtain ⟨member, key⟩ := indexed.paired.get_eq_some.mp hashed
      have run : c.tunnelAdd env l r link =
          (c.setUsers q ((c.heap q).users + 1), (c.heap q).ifindex) := by
        simp only [tunnelAdd, hashed]
      rw [run]
      refine ⟨indexed.setUsers q _, fun p inList => ?_⟩
      obtain ⟨left, right, index⟩ := setUsers_heap c q p ((c.heap q).users + 1)
      by_cases same : p = q
      · subst same
        obtain ⟨isLocal, isRemote⟩ := ends_of_key key
        exact .inl ⟨left.trans isLocal, right.trans isRemote, index⟩
      · refine .inr ⟨inList, by rw [setUsers_heap_eq, if_neg same], fun ends => ?_⟩
        exact same (indexed.paired.apart p inList q member
          (((tnlKey_eq_iff c p l r).mpr ends).trans key.symm))
  | none =>
      have absent : Absent c l r := indexed.paired.get_eq_none.mp hashed
      have apart : ∀ p ∈ c.tnlList, ¬ ((c.heap p).laddr = l ∧ (c.heap p).raddr = r) :=
        fun p inList ends => absent p inList ((tnlKey_eq_iff c p l r).mpr ends)
      rcases createTnl_cases indexed absent env link with ⟨i, _, run⟩ | ⟨c', run, unmoved, kept⟩
      · have added : c.tunnelAdd env l r link = (c.withTnl ⟨l, r, link, i, 1⟩, i) := by
          simp only [tunnelAdd, hashed, run, withTnl_heap_top]
        rw [added]
        refine ⟨@Indexed.withTnl c indexed ⟨l, r, link, i, 1⟩ absent, fun p inList => ?_⟩
        rcases (mem_withTnl c _ p).mp inList with old | rfl
        · exact .inr ⟨old, withTnl_heap indexed _ old, apart p old⟩
        · rw [withTnl_heap_top]
          exact .inl ⟨rfl, rfl, rfl⟩
      · have added : c.tunnelAdd env l r link = (c', -1) := by
          simp only [tunnelAdd, hashed, run]
        rw [added]
        refine ⟨kept, fun p inList => ?_⟩
        have old : p ∈ c.tnlList := unmoved.list ▸ inList
        exact .inr ⟨old, unmoved.records p old, apart p old⟩

/-- `tunnel_del` lists no new tunnel and gives none other ends or another index. -/
theorem tunnelDel_records {c : TunnelCtl} (indexed : Indexed c) (i : Int) :
    Indexed (c.tunnelDel i).1 ∧ ∀ p ∈ (c.tunnelDel i).1.tnlList, p ∈ c.tnlList ∧
      ((c.tunnelDel i).1.heap p).laddr = (c.heap p).laddr ∧
      ((c.tunnelDel i).1.heap p).raddr = (c.heap p).raddr ∧
      ((c.tunnelDel i).1.heap p).ifindex = (c.heap p).ifindex := by
  simp only [tunnelDel]
  cases found : c.getTnl i with
  | none => exact ⟨indexed, fun p member => ⟨member, rfl, rfl, rfl⟩⟩
  | some q =>
      have member := (getTnl_some found).1
      refine ⟨indexed.releaseTnl member, ?_⟩
      intro p inList
      simp only at inList ⊢
      by_cases last : (c.heap q).users = 1
      · rw [releaseTnl_eq last] at inList ⊢
        exact ⟨((mem_withoutTnl p).mp inList).1, setUsers_heap c q p 0⟩
      · rw [releaseTnl_more last] at inList ⊢
        exact ⟨inList, setUsers_heap c q p _⟩

/-- Every call either writes the record that the search finds, or leaves the
records and takes at most one user off a tunnel. -/
theorem step_cases {conf : Conf} {t t' : Tunnels} {call : SlotCall}
    (taken : step conf t call = .ok t') :
    (∃ l r link env mag, call = .add l r link env ∧ t.pmipTunnelGetTimerIndex r = some mag ∧
        t' = (t.recordTunnel env mag l r link).1) ∨
      ((t'.ctl = t.ctl ∨ ∃ tunnel, t'.ctl = (t.ctl.tunnelDel tunnel).1) ∧
        ∀ mag, slot t' mag = slot t mag) := by
  cases call with
  | add l r link env =>
      obtain ⟨index, added⟩ := map_fst_ok.mp taken
      simp only [pmipTunnelAdd] at added
      split at added
      · split at added
        · cases added
        · rename_i mag found
          split at added
          · split at added
            · cases added
              exact .inl ⟨l, r, link, env, mag, rfl, found, rfl⟩
            · cases added
              exact .inr ⟨.inl rfl, fun _ => rfl⟩
          · split at added
            · cases added
              exact .inr ⟨.inl rfl, fun _ => rfl⟩
            · split at added
              · cases added
                exact .inl ⟨l, r, link, env, mag, rfl, found, rfl⟩
              · cases added
                exact .inr ⟨.inl rfl, fun _ => rfl⟩
      · cases added
        exact .inr ⟨.inl rfl, fun _ => rfl⟩
  | del tunnel now =>
      obtain ⟨index, deleted⟩ := map_fst_ok.mp taken
      simp only [pmipTunnelDel] at deleted
      split at deleted
      · split at deleted
        · split at deleted
          · split at deleted
            · split at deleted
              · cases deleted
              · split at deleted
                · cases deleted
                · rename_i set_
                  cases deleted
                  obtain ⟨ctl, slots⟩ := setTimer_kept set_
                  exact .inr ⟨.inl ctl, slots⟩
            · cases deleted
              exact .inr ⟨.inr ⟨tunnel, rfl⟩, fun _ => rfl⟩
          · cases deleted
            exact .inr ⟨.inl rfl, fun _ => rfl⟩
        · cases deleted
          exact .inr ⟨.inl rfl, fun _ => rfl⟩
      · cases deleted
        exact .inr ⟨.inl rfl, fun _ => rfl⟩
  | setTimer r now timeOut =>
      obtain ⟨ctl, slots⟩ := setTimer_kept taken
      exact .inr ⟨.inl ctl, slots⟩

theorem released_records {c c' : TunnelCtl} (indexed : Indexed c)
    (released : c' = c ∨ ∃ tunnel, c' = (c.tunnelDel tunnel).1) :
    Indexed c' ∧ ∀ p ∈ c'.tnlList, p ∈ c.tnlList ∧ (c'.heap p).laddr = (c.heap p).laddr ∧
      (c'.heap p).raddr = (c.heap p).raddr ∧ (c'.heap p).ifindex = (c.heap p).ifindex := by
  rcases released with rfl | ⟨tunnel, rfl⟩
  · exact ⟨indexed, fun p member => ⟨member, rfl, rfl, rfl⟩⟩
  · exact tunnelDel_records indexed tunnel

/-! ## The invariant -/

/-- Distinct records; with dynamic tunnels, every tunnel has the one local end
and is recorded with its remote end, if that is specified. -/
structure SlotsOk (conf : Conf) (loc : In6Addr) (t : Tunnels) : Prop where
  distinct : Distinct t
  indexed : Indexed t.ctl
  recorded : conf.dynamicTunnelingEnabled = true → ∀ p ∈ t.ctl.tnlList,
    (t.ctl.heap p).laddr = loc ∧ ((t.ctl.heap p).raddr ≠ in6addrAny →
      ∃ mag, slot t mag = ((t.ctl.heap p).raddr, (t.ctl.heap p).ifindex))

theorem slotsOk_init (conf : Conf) (loc : In6Addr) : SlotsOk conf loc Tunnels.init where
  distinct := fun _ _ used => absurd rfl used
  indexed := ok_init.indexed
  recorded := fun _ _ member => absurd member List.not_mem_nil

section Keeps
variable {conf : Conf} {loc : In6Addr} {t t' : Tunnels}

theorem SlotsOk.kept (ok : SlotsOk conf loc t) (slots : ∀ mag, slot t' mag = slot t mag)
    (indexed : Indexed t'.ctl) (records : ∀ p ∈ t'.ctl.tnlList, p ∈ t.ctl.tnlList ∧
      (t'.ctl.heap p).laddr = (t.ctl.heap p).laddr ∧
      (t'.ctl.heap p).raddr = (t.ctl.heap p).raddr ∧
      (t'.ctl.heap p).ifindex = (t.ctl.heap p).ifindex) : SlotsOk conf loc t' where
  distinct := by
    have remotes : ∀ mag, (t'.timers mag).remote = (t.timers mag).remote := fun mag =>
      congrArg Prod.fst (slots mag)
    intro mag mag' used same
    rw [remotes] at used same
    rw [remotes] at same
    exact ok.distinct mag mag' used same
  indexed := indexed
  recorded := by
    intro dynamic p member
    obtain ⟨old, left, right, index⟩ := records p member
    obtain ⟨isLocal, record⟩ := ok.recorded dynamic p old
    rw [left, right, index]
    refine ⟨isLocal, fun used => ?_⟩
    obtain ⟨mag, here⟩ := record used
    exact ⟨mag, (slots mag).trans here⟩

/-- A tunnel is created or joined through the record `mag` of the remote end, or
a free one. -/
theorem SlotsOk.recordTunnel (ok : SlotsOk conf loc t) {mag : Fin pmipMaxMags} {l r : In6Addr}
    (record : (t.timers mag).remote = r ∨
      (t.timers mag).remote = in6addrAny ∧ ∀ other, (t.timers other).remote ≠ r)
    (isLocal : conf.dynamicTunnelingEnabled = true → l = loc) (env : TunnelEnv) (link : Int) :
    SlotsOk conf loc (t.recordTunnel env mag l r link).1 := by
  obtain ⟨indexed, records⟩ := tunnelAdd_records ok.indexed env l r link
  have slots := slot_recordTunnel t env mag l r link
  have remotes := remote_recordTunnel t env mag l r link
  -- no other record is for the remote end
  have alone : ∀ other, other ≠ mag → r ≠ in6addrAny → (t.timers other).remote ≠ r := by
    intro other different used same
    rcases record with here | ⟨_, new⟩
    · exact different (ok.distinct other mag (same ▸ used) (same.trans here.symm))
    · exact new other same
  refine ⟨?_, indexed, ?_⟩
  · intro first second used same
    rw [remotes] at used same
    rw [remotes] at same
    by_cases isFirst : first = mag
    · by_cases isSecond : second = mag
      · rw [isFirst, isSecond]
      · rw [if_pos isFirst] at used
        rw [if_pos isFirst, if_neg isSecond] at same
        exact absurd same.symm (alone second isSecond used)
    · rw [if_neg isFirst] at used
      by_cases isSecond : second = mag
      · rw [if_neg isFirst, if_pos isSecond] at same
        exact absurd same (alone first isFirst (same ▸ used))
      · rw [if_neg isFirst, if_neg isSecond] at same
        exact ok.distinct first second used same
  · intro dynamic p member
    change ((t.ctl.tunnelAdd env l r link).1.heap p).laddr = loc ∧ _
    rcases records p member with ⟨left, right, index⟩ | ⟨old, same, apart⟩
    · refine ⟨left.trans (isLocal dynamic), fun _ => ⟨mag, ?_⟩⟩
      rw [slots, if_pos rfl]
      change _ = (((t.ctl.tunnelAdd env l r link).1.heap p).raddr,
        ((t.ctl.tunnelAdd env l r link).1.heap p).ifindex)
      rw [right, index]
    · obtain ⟨here, recorded⟩ := ok.recorded dynamic p old
      rw [same]
      refine ⟨here, fun used => ?_⟩
      change ((t.ctl.tunnelAdd env l r link).1.heap p).raddr ≠ in6addrAny at used
      rw [same] at used
      obtain ⟨other, found⟩ := recorded used
      have remote : (t.timers other).remote = (t.ctl.heap p).raddr := congrArg Prod.fst found
      have different : other ≠ mag := by
        intro isMag
        rw [isMag] at remote
        rcases record with atRecord | ⟨free, _⟩
        · exact apart ⟨here.trans (isLocal dynamic).symm, remote.symm.trans atRecord⟩
        · exact used (remote.symm.trans free)
      refine ⟨other, ?_⟩
      rw [slots, if_neg different]
      change _ = (((t.ctl.tunnelAdd env l r link).1.heap p).raddr,
        ((t.ctl.tunnelAdd env l r link).1.heap p).ifindex)
      rw [same]
      exact found

theorem SlotsOk.step (ok : SlotsOk conf loc t) {call : SlotCall} (isLocal : Local conf loc call)
    (taken : step conf t call = .ok t') : SlotsOk conf loc t' := by
  rcases step_cases taken with ⟨l, r, link, env, mag, rfl, found, rfl⟩ | ⟨released, slots⟩
  · exact ok.recordTunnel (index_some found) isLocal env link
  · obtain ⟨indexed, records⟩ := released_records ok.indexed released
    exact ok.kept slots indexed records

theorem add_ok_iff {l r : In6Addr} {link : Int} {env : TunnelEnv} :
    (∃ next, t.pmipTunnelAdd conf env l r link = .ok next) ↔
      (conf.tunnelingEnabled = true → HasSlot t r) := by
  simp only [pmipTunnelAdd]
  cases tunneling : conf.tunnelingEnabled with
  | false => simp
  | true =>
      simp only [if_true, true_implies]
      constructor
      · intro added
        by_contra noSlot
        obtain ⟨next, ok⟩ := added
        rw [index_none_iff.mpr noSlot] at ok
        cases ok
      · intro slot
        obtain ⟨mag, found⟩ := index_of_slot slot
        rw [found]
        simp only
        split
        · split
          · exact ⟨_, rfl⟩
          · exact ⟨_, rfl⟩
        · split
          · exact ⟨_, rfl⟩
          · split
            · exact ⟨_, rfl⟩
            · exact ⟨_, rfl⟩

theorem del_last_ok_iff {tunnel : Int} {now : Timespec} (tunneling : conf.tunnelingEnabled = true)
    (dynamic : conf.dynamicTunnelingEnabled = true) (positive : 0 < tunnel)
    (last : t.ctl.tunnelGetusers tunnel = 1) :
    (∃ next, t.pmipTunnelDel conf now tunnel = .ok next) ↔
      ∃ mag, (t.timers mag).tunnel = tunnel := by
  simp only [pmipTunnelDel]
  rw [if_pos tunneling, if_pos positive, if_pos dynamic, if_pos last]
  constructor
  · intro deleted
    obtain ⟨next, ok⟩ := deleted
    split at ok
    · cases ok
    · rename_i mag search
      have here := List.find?_some search
      exact ⟨mag, of_decide_eq_true here⟩
  · intro recorded
    obtain ⟨mag, here⟩ := recorded
    split
    · rename_i search
      have missing := List.find?_eq_none.mp search mag (List.mem_finRange mag)
      simp [here] at missing
    · rename_i mag' _
      obtain ⟨next, set_⟩ := (@setTimer_ok_iff t now conf.maxDelayBeforeDynamicTunnelingDelete
        (t.timers mag').remote).mpr ⟨mag', .inl rfl⟩
      rw [set_]
      exact ⟨_, rfl⟩

theorem del_other_ok {tunnel : Int} {now : Timespec}
    (other : ¬ (conf.tunnelingEnabled = true ∧ conf.dynamicTunnelingEnabled = true ∧ 0 < tunnel ∧
      t.ctl.tunnelGetusers tunnel = 1)) :
    ∃ next, t.pmipTunnelDel conf now tunnel = .ok next := by
  simp only [pmipTunnelDel]
  split
  · rename_i tunneling
    split
    · rename_i positive
      split
      · rename_i dynamic
        split
        · rename_i last
          exact absurd ⟨tunneling, dynamic, positive, last⟩ other
        · exact ⟨_, rfl⟩
      · exact ⟨_, rfl⟩
    · exact ⟨_, rfl⟩
  · exact ⟨_, rfl⟩

theorem SlotsOk.lost_iff (ok : SlotsOk conf loc t) (dynamic : conf.dynamicTunnelingEnabled = true)
    {tunnel : Int} (last : t.ctl.tunnelGetusers tunnel = 1) :
    LostRecord t tunnel ↔ ¬ ∃ mag, (t.timers mag).tunnel = tunnel := by
  constructor
  · intro lost recorded
    obtain ⟨mag, here⟩ := recorded
    exact lost.2 mag here
  · intro unrecorded
    have nowhere : ∀ mag, (t.timers mag).tunnel ≠ tunnel := fun mag here =>
      unrecorded ⟨mag, here⟩
    refine ⟨?_, nowhere⟩
    simp only [tunnelGetusers] at last
    cases found : t.ctl.getTnl tunnel with
    | none =>
        rw [found] at last
        simp at last
    | some p =>
        refine ⟨p, rfl, ?_⟩
        by_contra used
        obtain ⟨member, index⟩ := getTnl_some found
        obtain ⟨mag, here⟩ := (ok.recorded dynamic p member).2 used
        exact nowhere mag ((congrArg Prod.snd here).trans index)

theorem SlotsOk.step_ok_iff (ok : SlotsOk conf loc t) (call : SlotCall) :
    (∃ next, TunnelSlots.step conf t call = .ok next) ↔ Slotted conf t call := by
  cases call with
  | add l r link env =>
      refine Iff.trans ⟨?_, ?_⟩ (@add_ok_iff conf t l r link env)
      · intro taken
        obtain ⟨next, isOk⟩ := taken
        obtain ⟨index, added⟩ := map_fst_ok.mp isOk
        exact ⟨(next, index), added⟩
      · intro added
        obtain ⟨⟨next, index⟩, isOk⟩ := added
        exact ⟨next, map_fst_ok.mpr ⟨index, isOk⟩⟩
  | del tunnel now =>
      have mapped : (∃ next, TunnelSlots.step conf t (.del tunnel now) = .ok next) ↔
          ∃ next, t.pmipTunnelDel conf now tunnel = .ok next := by
        constructor
        · intro taken
          obtain ⟨next, isOk⟩ := taken
          obtain ⟨index, deleted⟩ := map_fst_ok.mp isOk
          exact ⟨(next, index), deleted⟩
        · intro deleted
          obtain ⟨⟨next, index⟩, isOk⟩ := deleted
          exact ⟨next, map_fst_ok.mpr ⟨index, isOk⟩⟩
      rw [mapped]
      by_cases searched : conf.tunnelingEnabled = true ∧ conf.dynamicTunnelingEnabled = true ∧
          0 < tunnel ∧ t.ctl.tunnelGetusers tunnel = 1
      · obtain ⟨tunneling, dynamic, positive, last⟩ := searched
        rw [del_last_ok_iff tunneling dynamic positive last]
        simp only [Slotted]
        constructor
        · intro recorded _ _ _ _
          exact fun lost => (ok.lost_iff dynamic last).mp lost recorded
        · intro kept
          by_contra unrecorded
          exact kept tunneling dynamic positive last ((ok.lost_iff dynamic last).mpr unrecorded)
      · refine ⟨fun _ tunneling dynamic positive last => ?_, fun _ => del_other_ok searched⟩
        exact absurd ⟨tunneling, dynamic, positive, last⟩ searched
  | setTimer r now timeOut => exact setTimer_ok_iff

theorem handled_ok {call : SlotCall} (handled : Handled conf t call) :
    ∃ next, TunnelSlots.step conf t call = .ok next := by
  cases taken : TunnelSlots.step conf t call with
  | ok next => exact ⟨next, rfl⟩
  | error crash =>
      have known : crash = .tableIndex ∨ crash = .assertFailed := by
        cases call with
        | add l r link env =>
            cases added : t.pmipTunnelAdd conf env l r link with
            | ok next =>
                rw [TunnelSlots.step, added] at taken
                cases taken
            | error other =>
                rw [TunnelSlots.step, added] at taken
                cases taken
                exact .inl (pmipTunnelAdd_crash added)
        | del tunnel now =>
            cases deleted : t.pmipTunnelDel conf now tunnel with
            | ok next =>
                rw [TunnelSlots.step, deleted] at taken
                cases taken
            | error other =>
                rw [TunnelSlots.step, deleted] at taken
                cases taken
                exact pmipTunnelDel_crash deleted
        | setTimer r now timeOut => exact .inl (pmipTunnelSetTimer_crash taken)
      cases known with
      | inl index =>
          subst index
          exact absurd taken handled.indexed
      | inr failed =>
          subst failed
          exact absurd taken handled.asserted

theorem SlotsOk.handled_iff (ok : SlotsOk conf loc t) (call : SlotCall) :
    Handled conf t call ↔ Slotted conf t call := by
  rw [← ok.step_ok_iff call]
  constructor
  · exact handled_ok
  · intro taken
    have slotted := (ok.step_ok_iff call).mp taken
    obtain ⟨next, isOk⟩ := taken
    refine ⟨by rw [isOk]; simp, by rw [isOk]; simp, ?_⟩
    intro l r link env isAdd tunneling noSlot
    subst isAdd
    exact absurd (slotted tunneling) noSlot

end Keeps

/-- A run's calls are all handled exactly when they are all slotted, and no state
that a run reaches has two records for one specified remote end. -/
theorem tunnel_slots_iff (conf : Conf) (loc : In6Addr) (calls : List SlotCall)
    (isLocal : ∀ call ∈ calls, Local conf loc call) :
    (Meets (step conf) (Handled conf) Tunnels.init calls ↔
        Meets (step conf) (Slotted conf) Tunnels.init calls) ∧
      ∀ earlier later t, calls = earlier ++ later →
        run (step conf) Tunnels.init earlier = .ok t → Distinct t := by
  constructor
  · exact @meets_iff_of_invariant _ _ _ (step conf) (Handled conf) (Slotted conf)
      (SlotsOk conf loc) (Local conf loc) (fun _ call _ ok => ok.handled_iff call)
      (fun _ _ _ allowed ok _ taken => ok.step allowed taken) calls Tunnels.init isLocal
      (slotsOk_init conf loc)
  · intro earlier later t split reached
    have allowed : ∀ call ∈ earlier, Local conf loc call := fun call member =>
      isLocal call (by rw [split]; exact List.mem_append_left _ member)
    exact (@run_invariant _ _ _ (step conf) (fun _ => Local conf loc) (SlotsOk conf loc)
      (fun _ _ _ ok here taken => ok.step here taken) earlier Tunnels.init t
      (slotsOk_init conf loc) (meets_of_mem allowed Tunnels.init) reached).distinct

/-! ## The remote ends of a run -/

section Remotes
variable {conf : Conf} {t t' : Tunnels} {r r' : In6Addr}

def Recorded (t : Tunnels) (r : In6Addr) : Prop := ∃ mag, (t.timers mag).remote = r

theorem recordTunnel_recorded {mag : Fin pmipMaxMags} {l : In6Addr}
    (found : t.pmipTunnelGetTimerIndex r = some mag) (env : TunnelEnv) (link : Int) :
    Recorded (t.recordTunnel env mag l r link).1 r ∧
      (r' ≠ in6addrAny → Recorded t r' → Recorded (t.recordTunnel env mag l r link).1 r') := by
  have remotes := remote_recordTunnel t env mag l r link
  refine ⟨⟨mag, by rw [remotes, if_pos rfl]⟩, fun used recorded => ?_⟩
  obtain ⟨other, same⟩ := recorded
  by_cases isMag : other = mag
  · refine ⟨mag, ?_⟩
    rw [remotes, if_pos rfl]
    rw [isMag] at same
    rcases index_some found with here | ⟨free, _⟩
    · exact here.symm.trans same
    · exact absurd (same.symm.trans free) used
  · exact ⟨other, by rw [remotes, if_neg isMag, same]⟩

theorem recorded_of_slots (slots : ∀ mag, slot t' mag = slot t mag) (recorded : Recorded t r) :
    Recorded t' r := by
  obtain ⟨mag, here⟩ := recorded
  exact ⟨mag, (congrArg Prod.fst (slots mag)).trans here⟩

theorem step_recorded {call : SlotCall} (used : r ≠ in6addrAny)
    (taken : step conf t call = .ok t') (recorded : Recorded t r) : Recorded t' r := by
  rcases step_cases taken with ⟨l, remote, link, env, mag, rfl, found, rfl⟩ | ⟨_, slots⟩
  · exact (recordTunnel_recorded found env link).2 used recorded
  · exact recorded_of_slots slots recorded

theorem static_add_recorded (tunneling : conf.tunnelingEnabled = true)
    (static : conf.dynamicTunnelingEnabled = false) {l : In6Addr} {link : Int} {env : TunnelEnv}
    (taken : step conf t (.add l r link env) = .ok t') : Recorded t' r := by
  obtain ⟨index, added⟩ := map_fst_ok.mp taken
  simp only [pmipTunnelAdd, tunneling, static, if_true, Bool.false_eq_true, if_false] at added
  split at added
  · cases added
  · rename_i mag found
    split at added
    · rename_i here
      cases added
      exact ⟨mag, here⟩
    · rename_i other
      split at added
      · cases added
        exact (@recordTunnel_recorded t r r mag l found env link).1
      · rename_i taken'
        refine absurd ?_ taken'
        simpa [isUnspecified] using ((index_some found).resolve_left other).1

theorem static_run_recorded (tunneling : conf.tunnelingEnabled = true)
    (static : conf.dynamicTunnelingEnabled = false) (used : r ≠ in6addrAny)
    {calls : List SlotCall} (reached : run (step conf) t calls = .ok t')
    (asked : Recorded t r ∨ ∃ l link env, .add l r link env ∈ calls) : Recorded t' r := by
  induction calls generalizing t with
  | nil =>
      cases reached
      refine asked.resolve_right ?_
      simp
  | cons call rest ih =>
      obtain ⟨next, taken, restRun⟩ := run_cons_ok reached
      refine ih restRun ?_
      rcases asked with recorded | ⟨l, link, env, member⟩
      · exact .inl (step_recorded used taken recorded)
      · rcases List.mem_cons.mp member with first | later
        · subst first
          exact .inl (static_add_recorded tunneling static taken)
        · exact .inr ⟨l, link, env, later⟩

theorem static_remotes_bounded (tunneling : conf.tunnelingEnabled = true)
    (static : conf.dynamicTunnelingEnabled = false) {calls : List SlotCall}
    (handled : Meets (step conf) (Handled conf) Tunnels.init calls) {remotes : List In6Addr}
    (nodup : remotes.Nodup) (used : ∀ r ∈ remotes, r ≠ in6addrAny)
    (asked : ∀ r ∈ remotes, ∃ l link env, .add l r link env ∈ calls) :
    remotes.length ≤ pmipMaxMags := by
  obtain ⟨final, reached, _⟩ := @run_succeeds _ _ _ (step conf) (Handled conf) (fun _ => True)
    (fun _ _ _ here => (handled_ok here).imp fun _ taken => ⟨taken, trivial⟩) calls Tunnels.init
    trivial handled
  have inside : remotes ⊆ (List.finRange pmipMaxMags).map fun mag => (final.timers mag).remote := by
    intro r member
    obtain ⟨mag, here⟩ :=
      static_run_recorded tunneling static (used r member) reached (.inr (asked r member))
    exact List.mem_map.mpr ⟨mag, List.mem_finRange mag, here⟩
  have bound := (List.subperm_of_subset nodup inside).length_le
  rw [List.length_map, List.length_finRange] at bound
  exact bound

end Remotes

def Among (remotes : List In6Addr) : SlotCall → Prop
  | .add _ remote _ _ => remote ∈ remotes
  | .setTimer remote _ _ => remote ∈ remotes
  | .del _ _ => True

/-- The records and the tunnels have the remote ends of the list. -/
structure Known (remotes : List In6Addr) (t : Tunnels) : Prop where
  records : ∀ mag, (t.timers mag).remote ≠ in6addrAny → (t.timers mag).remote ∈ remotes
  tunnels : ∀ p ∈ t.ctl.tnlList, (t.ctl.heap p).raddr ∈ remotes

section Few
variable {conf : Conf} {loc : In6Addr} {remotes : List In6Addr} {t t' : Tunnels}

theorem known_init (remotes : List In6Addr) : Known remotes Tunnels.init where
  records := fun _ used => absurd rfl used
  tunnels := fun _ member => absurd member List.not_mem_nil

theorem Known.step (known : Known remotes t) (ok : SlotsOk conf loc t) {call : SlotCall}
    (among : Among remotes call) (taken : step conf t call = .ok t') : Known remotes t' := by
  rcases step_cases taken with ⟨l, r, link, env, mag, rfl, found, rfl⟩ | ⟨released, slots⟩
  · constructor
    · intro other used
      rw [remote_recordTunnel] at used ⊢
      split at used
      · rename_i isMag
        rw [if_pos isMag]
        exact among
      · rename_i notMag
        rw [if_neg notMag]
        exact known.records other used
    · intro p member
      change ((t.ctl.tunnelAdd env l r link).1.heap p).raddr ∈ remotes
      rcases (tunnelAdd_records ok.indexed env l r link).2 p member with
        ⟨_, right, _⟩ | ⟨old, same, _⟩
      · rw [right]
        exact among
      · rw [same]
        exact known.tunnels p old
  · constructor
    · intro mag used
      have remote : (t'.timers mag).remote = (t.timers mag).remote := congrArg Prod.fst (slots mag)
      rw [remote] at used ⊢
      exact known.records mag used
    · intro p member
      obtain ⟨old, _, right, _⟩ := (released_records ok.indexed released).2 p member
      rw [right]
      exact known.tunnels p old

theorem Known.hasSlot (known : Known remotes t) (distinct : Distinct t)
    (few : remotes.length ≤ pmipMaxMags) {r : In6Addr} (member : r ∈ remotes) : HasSlot t r := by
  by_contra noSlot
  have full : ∀ mag, (t.timers mag).remote ≠ r ∧ (t.timers mag).remote ≠ in6addrAny := by
    intro mag
    exact ⟨fun here => noSlot ⟨mag, .inl here⟩, fun free => noSlot ⟨mag, .inr free⟩⟩
  have nodup : ((List.finRange pmipMaxMags).map fun mag => (t.timers mag).remote).Nodup := by
    refine List.Nodup.map (fun mag mag' same => ?_) (List.nodup_finRange pmipMaxMags)
    exact distinct mag mag' (full mag).2 same
  have inside : ((List.finRange pmipMaxMags).map fun mag => (t.timers mag).remote) ⊆
      remotes.erase r := by
    intro remote isRemote
    obtain ⟨mag, _, rfl⟩ := List.mem_map.mp isRemote
    exact (List.mem_erase_of_ne (full mag).1).mpr (known.records mag (full mag).2)
  have bound := (List.subperm_of_subset nodup inside).length_le
  rw [List.length_map, List.length_finRange, List.length_erase_of_mem member] at bound
  have positive := List.length_pos_of_mem member
  omega

theorem few_remotes_handled (few : remotes.length ≤ pmipMaxMags) (specified : in6addrAny ∉ remotes)
    {calls : List SlotCall} (isLocal : ∀ call ∈ calls, Local conf loc call)
    (among : ∀ call ∈ calls, Among remotes call) :
    Meets (step conf) (Handled conf) Tunnels.init calls := by
  refine (@meets_iff_of_invariant _ _ _ (step conf) (Handled conf) (fun _ _ => True)
    (fun t => SlotsOk conf loc t ∧ Known remotes t)
    (fun call => Local conf loc call ∧ Among remotes call) ?_ ?_ calls Tunnels.init
    (fun call member => ⟨isLocal call member, among call member⟩)
    ⟨slotsOk_init conf loc, known_init remotes⟩).mpr (meets_always (fun _ _ => trivial) calls _)
  · intro t call allowed inv
    obtain ⟨ok, known⟩ := inv
    refine ⟨fun _ => trivial, fun _ => (ok.handled_iff call).mpr ?_⟩
    cases call with
    | add l r link env => exact fun _ => known.hasSlot ok.distinct few allowed.2
    | del tunnel now =>
        intro _ _ _ _ lost
        obtain ⟨p, found, free⟩ := lost.1
        have member := known.tunnels p (getTnl_some found).1
        rw [free] at member
        exact specified member
    | setTimer r now timeOut => exact known.hasSlot ok.distinct few allowed.2
  · intro t call next allowed inv _ taken
    exact ⟨inv.1.step allowed.1 taken, inv.2.step inv.1 allowed.2 taken⟩

end Few

def remoteOf (n : Nat) : In6Addr := ⟨List.replicate 15 0 ++ [.ofNat (n + 1)], rfl⟩

theorem remoteOf_last (n : Nat) : ((remoteOf n).bytes.getD 15 0).toNat = (n + 1) % 256 := rfl

theorem remoteOf_ne {n : Nat} (small : n < 255) : remoteOf n ≠ in6addrAny := by
  intro same
  have last : (n + 1) % 256 = 0 := by
    rw [← remoteOf_last, same]
    rfl
  omega

theorem remotes_nodup {n : Nat} (small : n ≤ 255) : ((List.range n).map remoteOf).Nodup := by
  refine List.Nodup.map_on (fun k inRange k' inRange' same => ?_) List.nodup_range
  have last : (k + 1) % 256 = (k' + 1) % 256 := by
    rw [← remoteOf_last, same, remoteOf_last]
  rw [List.mem_range] at inRange inRange'
  omega

def confStatic : Conf := { confDefault .ha with tunnelingEnabled := true }

def additions (n : Nat) : List SlotCall :=
  (List.range n).map fun k => .add in6addrLoopback (remoteOf k) 0 ⟨some (k + 1), true⟩

/-- Tunnels to the unspecified address and to a gateway; the first one's only
user leaves. -/
def unspecifiedFirst : List SlotCall :=
  [.add in6addrLoopback in6addrAny 0 ⟨some 5, true⟩,
    .add in6addrLoopback (remoteOf 1) 0 ⟨some 6, true⟩, .del 5 ⟨100, 0⟩]

/-- The sixty-fifth gateway finds no record, and the record of the tunnel to the
unspecified address is given away. -/
theorem tunnel_slots_exhausted :
    ¬ Meets (step confStatic) (Handled confStatic) Tunnels.init (additions 65) ∧
      run (step (confDynamic .ha)) Tunnels.init unspecifiedFirst = .error .assertFailed := by
  refine ⟨fun handled => ?_, ?_⟩
  · have bound := @static_remotes_bounded confStatic rfl rfl _ handled
      ((List.range 65).map remoteOf) (remotes_nodup (by decide)) (by
        intro r member
        obtain ⟨k, inRange, rfl⟩ := List.mem_map.mp member
        rw [List.mem_range] at inRange
        exact remoteOf_ne (by omega)) (by
        intro r member
        obtain ⟨k, inRange, rfl⟩ := List.mem_map.mp member
        exact ⟨_, _, _, List.mem_map.mpr ⟨k, inRange, rfl⟩⟩)
    rw [List.length_map, List.length_range] at bound
    exact absurd bound (by decide)
  · rfl

def oneGateway : List SlotCall :=
  [.add in6addrLoopback (remoteOf 1) 0 ⟨some 6, true⟩, .del 6 ⟨100, 0⟩,
    .setTimer (remoteOf 1) ⟨100, 0⟩ ⟨5, 0⟩]

theorem tunnel_slots_one_gateway :
    Meets (step (confDynamic .ha)) (Slotted (confDynamic .ha)) Tunnels.init oneGateway := by
  have isLocal : ∀ call ∈ oneGateway, Local (confDynamic .ha) in6addrLoopback call := by
    simp [oneGateway, Local]
  refine (tunnel_slots_iff (confDynamic .ha) in6addrLoopback oneGateway isLocal).1.mp ?_
  exact few_remotes_handled (by decide : [remoteOf 1].length ≤ pmipMaxMags) (by decide) isLocal
    (by simp [oneGateway, Among])

end OaiPmip.TunnelSlots
