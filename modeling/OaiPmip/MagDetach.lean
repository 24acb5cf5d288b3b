import OaiPmip.MagTunnel

/-!
# A node that leaves

A deassociation is acted on only when its entry is registered: in `BCE_TEMP`
the event is ignored, and the acknowledgement that is still under way then
completes the registration of a node that has left.  Where the entry is
registered, and no second entry has its key, the deassociation removes the
node's only entry, and no acknowledgement for the node has an effect until it is
seen again.
-/

set_option autoImplicit false

namespace OaiPmip.Daemon

open OaiPmip.ChainTable OaiPmip.HashChains OaiPmip.HashKeys OaiPmip.Runs

/-- What holds of the cache whatever the registrations find: the nodes are in
their buckets, once each, and belong to this gateway. -/
structure Sited (conf : Conf) (d : Daemon) : Prop where
  placed : Placed (calcHash pmipCacheBuckets) d.key d.hash
  nodup : d.entries.Nodup
  below : ∀ p ∈ d.entries, p < d.top
  serving : ∀ p ∈ d.entries, (d.key p).magAddress = conf.ourAddress
  tunnels : conf.dynamicTunnelingEnabled = true → Tunnels.Recorded conf d.tun

def Gone (mnNai : Nai) (d : Daemon) : Prop := ∀ p ∈ d.entries, (d.heap p).mnNai ≠ mnNai

def Attaches (conf : Conf) (mnNai : Nai) (d : Daemon) : MagInput → Prop
  | .event info env =>
      StartsRegistration conf info ∧
        ∃ answer ∈ (HnpCache.mnidHnpMap d.hnp env.radius (eui64ToEui48 info.mnIid)
          info.mnNai).2, answer.2 = mnNai
  | .fire _ => False

namespace Sited

variable {conf : Conf} {d d' : Daemon}

theorem init (conf : Conf) {kernel : TunnelEnv} {link : Int} {tun : Tunnels}
    (started : Tunnels.pmipTunnelsInit conf kernel link = .ok tun) (hnp : List MnidHnp) :
    Sited conf (Daemon.init tun hnp) where
  placed := placed_empty
  nodup := by simp [entries, Daemon.init]
  below := by simp [entries, Daemon.init]
  serving := by simp [entries, Daemon.init]
  tunnels := fun dynamic => Tunnels.recorded_init dynamic started

theorem same (sited : Sited conf d) (hash : d'.hash = d.hash) (key : d'.key = d.key)
    (top : d.top ≤ d'.top)
    (tunnels : conf.dynamicTunnelingEnabled = true → Tunnels.Recorded conf d'.tun) :
    Sited conf d' := by
  have entries : d'.entries = d.entries := by simp only [Daemon.entries, hash]
  refine ⟨?_, ?_, ?_, ?_, tunnels⟩
  · rw [hash, key]
    exact sited.placed
  · rw [entries]
    exact sited.nodup
  · intro p member
    rw [entries] at member
    exact Nat.lt_of_lt_of_le (sited.below p member) top
  · intro p member
    rw [entries] at member
    rw [key]
    exact sited.serving p member

theorem frame (sited : Sited conf d) {bce : Nat} (frame : Frame PmipEntry.owner bce d d')
    (tunnels : conf.dynamicTunnelingEnabled = true → Tunnels.Recorded conf d'.tun) :
    Sited conf d' :=
  sited.same frame.hash frame.key (Nat.le_of_eq frame.top.symm) tunnels

theorem delete (sited : Sited conf d) (bce : Nat) : Sited conf (d.pmipBceDelete bce) where
  placed := placed_erase sited.placed _
  nodup := by
    have fewer : (d.pmipBceDelete bce).entries.Sublist d.entries := by
      rw [entries, delete_hash, toList_erase sited.placed]
      exact List.eraseP_sublist
    exact fewer.nodup sited.nodup
  below := fun p member => sited.below p (delete_entries_subset d bce p member)
  serving := fun p member => sited.serving p (delete_entries_subset d bce p member)
  tunnels := fun dynamic => (sited.tunnels dynamic).of_lifetimes rfl fun _ => ⟨rfl, rfl⟩

theorem allocated (sited : Sited conf d) (type : BceType) : Sited conf (d.allocated type) := by
  have keys : ∀ p ∈ d.entries, (d.allocated type).key p = d.key p := by
    intro p member
    have old : p ≠ d.top := Nat.ne_of_lt (sited.below p member)
    simp only [key, Daemon.allocated, Function.update_of_ne old]
  refine ⟨?_, sited.nodup, ?_, ?_, sited.tunnels⟩
  · intro b p member
    rw [keys p ((mem_toList d.hash p).mpr ⟨b, member⟩)]
    exact sited.placed b p member
  · exact fun p member => Nat.lt_succ_of_lt (sited.below p member)
  · intro p member
    rw [keys p member]
    exact sited.serving p member

theorem added (sited : Sited conf d) {env : Env} {bce : Nat} (new : bce ∉ d.entries)
    (below : bce < d.top) (ours : (d.key bce).magAddress = conf.ourAddress)
    (added : Added env bce d d')
    (tunnels : conf.dynamicTunnelingEnabled = true → Tunnels.Recorded conf d'.tun) :
    Sited conf d' := by
  have linked : d'.hash = d.hash ∨ d'.hash = append d.hash (calcHash pmipCacheBuckets (d.key bce)) bce := by
    rw [added.hash]
    simp only [tableAdd]
    split
    · split
      · exact Or.inl rfl
      · exact Or.inr rfl
    · exact Or.inl rfl
  rcases linked with unlinked | linked
  · exact sited.same unlinked added.key (Nat.le_of_eq added.top.symm) tunnels
  · have joined : d'.entries.Perm (bce :: d.entries) := by
      rw [entries, linked]
      exact toList_append_perm _ _ _
    refine ⟨?_, ?_, ?_, ?_, tunnels⟩
    · rw [linked, added.key]
      exact placed_append sited.placed bce
    · exact joined.nodup_iff.mpr (List.nodup_cons.mpr ⟨new, sited.nodup⟩)
    · intro p member
      rw [added.top]
      rcases List.mem_cons.mp (joined.mem_iff.mp member) with rfl | before
      · exact below
      · exact sited.below p before
    · intro p member
      rw [added.key]
      rcases List.mem_cons.mp (joined.mem_iff.mp member) with rfl | before
      · exact ours
      · exact sited.serving p before

end Sited

section Moves
variable {conf : Conf} {d d' : Daemon}

theorem Sited.registering_key (sited : Sited conf d) (env : Env) (info : MsgInfo)
    (map : List MnidHnp) (pfx : In6Addr) (nai : Nai) :
    ∀ p ∈ d.entries, (d.registering conf env info map pfx nai).key p = d.key p := by
  intro p member
  have old : p ≠ d.top := Nat.ne_of_lt (sited.below p member)
  have frame := frame_registering conf d env info map pfx nai
  simp only [key, frame.others p old, Daemon.allocated, Function.update_of_ne old]

theorem Sited.registered (sited : Sited conf d) (env : Env) (info : MsgInfo) (map : List MnidHnp)
    (pfx : In6Addr) (nai : Nai) :
    Sited conf ((d.registering conf env info map pfx nai).pmipCacheAdd conf env d.top) := by
  have frame := frame_registering conf d env info map pfx nai
  have entries : (d.registering conf env info map pfx nai).entries = d.entries := frame.entries
  have keys := sited.registering_key env info map pfx nai
  have steady := steady_registering conf d env info map pfx nai
  have top : (d.registering conf env info map pfx nai).top = d.top + 1 := frame.top
  have filled : Sited conf (d.registering conf env info map pfx nai) := by
    refine ⟨?_, ?_, ?_, ?_, fun dynamic => recorded_steady (sited.tunnels dynamic) steady⟩
    · intro b p member
      have inChain : p ∈ d.hash b := by
        rw [frame.hash] at member
        exact member
      rw [keys p ((mem_toList d.hash p).mpr ⟨b, inChain⟩)]
      exact sited.placed b p inChain
    · rw [entries]
      exact sited.nodup
    · intro p member
      rw [entries] at member
      rw [top]
      exact Nat.lt_succ_of_lt (sited.below p member)
    · intro p member
      rw [entries] at member
      rw [keys p member]
      exact sited.serving p member
  apply filled.added _ _ _ (pmipCacheAdd_added conf _ env d.top)
  · exact fun dynamic => recorded_steady (filled.tunnels dynamic) (steady_pmipCacheAdd conf _ env _)
  · rw [entries]
    exact fun member => Nat.lt_irrefl _ (sited.below _ member)
  · rw [top]
    exact Nat.lt_succ_self _
  · rw [Daemon.registering_key]

theorem Sited.move (sited : Sited conf d) {input : MagInput} (move : MagMove conf d input d') :
    Sited conf d' := by
  have tunnels : conf.dynamicTunnelingEnabled = true → Tunnels.Recorded conf d'.tun :=
    fun dynamic => move_recorded (sited.tunnels dynamic) dynamic move
  have touched : ∀ used, Sited conf (d.touch used) := fun used =>
    sited.same rfl rfl (Nat.le_refl _) sited.tunnels
  cases move with
  | looked used => exact touched used
  | leaked used => exact (touched used).allocated .temp
  | registered used _ _ _ => exact (touched used).registered _ _ _ _ _
  | worked _ work => exact sited.frame work.frame.owner tunnels
  | attached _ _ _ work ended =>
      exact sited.frame (work.frame.owner.trans
        ((frame_magEndRegistration conf _ _ _ _).of_ok ended)) tunnels
  | detached _ _ work dereg =>
      have frame := work.frame.owner.trans ((frame_magDereg conf _ _ _ true).of_ok dereg)
      apply Sited.delete
      exact sited.frame frame fun dynamic => recorded_magDereg
        (recorded_steady (sited.tunnels dynamic) work.steady) dereg
  | dropped _ _ work =>
      apply Sited.delete
      exact sited.frame work.frame.owner fun dynamic =>
        recorded_steady (sited.tunnels dynamic) work.steady
  | tunnelExpired _ => exact sited.same rfl rfl (Nat.le_refl _) tunnels

/-! ## A node that is gone -/

theorem gone_iff_key (mnNai : Nai) (d : Daemon) :
    Gone mnNai d ↔ ∀ p ∈ d.entries, (d.key p).mnNai ≠ mnNai := Iff.rfl

theorem Gone.fewer {mnNai : Nai} (gone : Gone mnNai d) (fewer : ∀ p ∈ d'.entries, p ∈ d.entries)
    (key : ∀ p ∈ d.entries, d'.key p = d.key p) : Gone mnNai d' := by
  rw [gone_iff_key] at *
  intro p member
  rw [key p (fewer p member)]
  exact gone p (fewer p member)

theorem Gone.frame {mnNai : Nai} (gone : Gone mnNai d) {bce : Nat}
    (frame : Frame PmipEntry.owner bce d d') : Gone mnNai d' := by
  apply gone.fewer
  · intro p member
    rw [← frame.entries]
    exact member
  · intro p _
    rw [frame.key]

theorem Gone.delete {mnNai : Nai} (gone : Gone mnNai d) (bce : Nat) :
    Gone mnNai (d.pmipBceDelete bce) :=
  gone.fewer (delete_entries_subset d bce) fun _ _ => rfl

theorem Gone.registered {mnNai : Nai} (gone : Gone mnNai d) (sited : Sited conf d) (env : Env)
    (info : MsgInfo) (map : List MnidHnp) (pfx : In6Addr) {nai : Nai} (other : nai ≠ mnNai) :
    Gone mnNai ((d.registering conf env info map pfx nai).pmipCacheAdd conf env d.top) := by
  have frame := frame_registering conf d env info map pfx nai
  have entries : (d.registering conf env info map pfx nai).entries = d.entries := frame.entries
  have added := pmipCacheAdd_added conf (d.registering conf env info map pfx nai) env d.top
  rw [gone_iff_key] at *
  intro p member
  rw [added.key]
  rcases added.mem_entries p member with rfl | before
  · rw [registering_key]
    exact other
  · rw [entries] at before
    rw [sited.registering_key env info map pfx nai p before]
    exact gone p before

theorem Gone.move {mnNai : Nai} (gone : Gone mnNai d) (sited : Sited conf d) {input : MagInput}
    (elsewhere : ¬Attaches conf mnNai d input) (move : MagMove conf d input d') :
    Gone mnNai d' := by
  cases move with
  | looked used => exact gone
  | leaked used =>
      apply gone.fewer
      · exact fun p member => member
      · intro p member
        have old : p ≠ d.top := Nat.ne_of_lt (sited.below p member)
        simp [key, Daemon.allocated, touch, Function.update_of_ne old]
  | @registered info env map pfx nai used _ starts answer =>
      have touched : Sited conf (d.touch used) := sited.same rfl rfl (Nat.le_refl _) sited.tunnels
      have stays : Gone mnNai (d.touch used) := gone
      apply stays.registered touched
      intro same
      exact elsewhere ⟨starts, (pfx, nai), by rw [answer]; rfl, same⟩
  | worked _ work => exact gone.frame work.frame.owner
  | attached _ _ _ work ended =>
      exact gone.frame (work.frame.owner.trans ((frame_magEndRegistration conf _ _ _ _).of_ok ended))
  | detached _ _ work dereg =>
      exact (gone.frame
        (work.frame.owner.trans ((frame_magDereg conf _ _ _ true).of_ok dereg))).delete _
  | dropped _ _ work => exact (gone.frame work.frame.owner).delete _
  | tunnelExpired _ => exact gone

theorem Gone.acknowledged {mnNai : Nai} (gone : Gone mnNai d) (env : Env) {pba : MsgInfo}
    (isPba : pba.msgEvent = .hasPBA) (names : pba.mnNai = mnNai) :
    ∃ used, d.magFsm conf env pba = .ok (d.touch used) := by
  have missing : d.cached pba.mnNai conf.ourAddress = none := by
    cases found : d.cached pba.mnNai conf.ourAddress with
    | none => rfl
    | some p =>
        obtain ⟨member, key⟩ := cached_some found
        have isNai : (d.key p).mnNai = mnNai := by rw [key, names]
        exact absurd isNai (gone p member)
  simp only [magFsm]
  split
  · exact ⟨[], rfl⟩
  · rw [pmipCacheExists_eq]
    have isType : d.cachedType pba.mnNai conf.ourAddress = .noEntry := by
      simp only [cachedType, missing]
    rw [isType]
    simp only [magNoEntry, isPba]
    split
    · exact ⟨_, rfl⟩
    · exact ⟨_, rfl⟩

end Moves

/-! ## Deassociations -/

/-- The event goes through, and until the node is associated again it has no
entry and no acknowledgement for it does more than a lookup. -/
def Detaches (conf : Conf) (d : Daemon) (info : MsgInfo) (env : Env) : Prop :=
  ∃ after, d.magStep conf (.event info env) = .ok after ∧
    ∀ (later : List MagInput) (final : Daemon), run (magStep conf) after later = .ok final →
      Meets (magStep conf) (fun d input => ¬Attaches conf info.mnNai d input) after later →
        Gone info.mnNai final ∧
          ∀ (pba : MsgInfo) (env : Env), pba.msgEvent = .hasPBA → pba.mnNai = info.mnNai →
            ∃ used, final.magFsm conf env pba = .ok (final.touch used)

def Removable (d : Daemon) (bce : Nat) : Prop :=
  (d.heap bce).type = .pmip ∧ ∀ other ∈ d.entries, d.key other = d.key bce → other = bce

instance (d : Daemon) (bce : Nat) : Decidable (Removable d bce) :=
  inferInstanceAs (Decidable (_ ∧ ∀ _, _ → _))

section Deassociations
variable {conf : Conf} {d : Daemon} {info : MsgInfo} {bce : Nat}

theorem dereg_ignored (env : Env) (isDereg : info.msgEvent = .hasDEREG)
    (unregistered : d.cachedType info.mnNai conf.ourAddress ≠ .pmip) :
    ∃ used, d.magFsm conf env info = .ok (d.touch used) := by
  have arrived : ¬(info.msgEvent = .hasPBA ∧ info.dst ≠ conf.magAddressEgress) := by
    simp [isDereg]
  simp only [magFsm, if_neg arrived, pmipCacheExists_eq]
  cases isType : d.cachedType info.mnNai conf.ourAddress with
  | noEntry =>
      simp only [magNoEntry, isDereg]
      split
      · exact ⟨_, rfl⟩
      · exact ⟨_, rfl⟩
  | temp =>
      simp only [magTemp, isDereg]
      exact ⟨_, rfl⟩
  | pmip => exact absurd isType unregistered

theorem dereg_removes (sited : Sited conf d) (env : Env) (isDereg : info.msgEvent = .hasDEREG)
    (found : d.cached info.mnNai conf.ourAddress = some bce)
    (registered : (d.heap bce).type = .pmip) :
    ∃ after, d.magFsm conf env info = .ok after ∧ after.key = d.key ∧
      d.entries.Perm (bce :: after.entries) := by
  have arrived : ¬(info.msgEvent = .hasPBA ∧ info.dst ≠ conf.magAddressEgress) := by
    simp [isDereg]
  have isType : d.cachedType info.mnNai conf.ourAddress = .pmip := by
    simp only [cachedType, found, registered]
  let looked := d.touch (d.walk ⟨info.mnNai, conf.ourAddress⟩ (d.chainOf ⟨info.mnNai, conf.ourAddress⟩))
  let again := looked.touch (looked.walk ⟨info.mnNai, conf.ourAddress⟩
    (looked.chainOf ⟨info.mnNai, conf.ourAddress⟩))
  have got : looked.getEntry info.mnNai conf.ourAddress = .ok (again, bce) := by
    have same : looked.cached info.mnNai conf.ourAddress = some bce := found
    rw [getEntry_eq, same]
  obtain ⟨mid, dereg⟩ := magDereg_succeeds (d := again) env bce sited.tunnels
  have frame := (frame_magDereg conf again env bce true).of_ok dereg
  have taken : d.magFsm conf env info = .ok (mid.pmipBceDelete bce) := by
    simp only [magFsm, pmipCacheExists_eq, isType, magPmip, isDereg]
    exact bind_eq_ok.mpr ⟨(again, bce), got, bind_eq_ok.mpr ⟨mid, dereg, rfl⟩⟩
  have key : mid.key = d.key := frame.key
  have hash : mid.hash = d.hash := frame.hash
  refine ⟨_, taken, key, ?_⟩
  have isKey : d.key bce = ⟨info.mnNai, conf.ourAddress⟩ := (cached_some found).2
  have first : ChainTable.get (calcHash pmipCacheBuckets) mid.key mid.hash (mid.key bce) =
      some bce := by
    rw [key, hash, isKey]
    exact found
  have removed := toList_erase_perm first
  rw [hash] at removed
  rw [entries, entries, delete_hash, hash]
  exact removed

theorem gone_of_removed (sited : Sited conf d)
    (found : d.cached info.mnNai conf.ourAddress = some bce)
    (unique : ∀ other ∈ d.entries, d.key other = d.key bce → other = bce) {after : Daemon}
    (key : after.key = d.key) (removed : d.entries.Perm (bce :: after.entries)) :
    Gone info.mnNai after := by
  obtain ⟨notAfter, -⟩ := List.nodup_cons.mp (removed.nodup_iff.mp sited.nodup)
  rw [gone_iff_key]
  intro p member isNai
  rw [key] at isNai
  have before : p ∈ d.entries := removed.mem_iff.mpr (List.mem_cons_of_mem _ member)
  have isKey : d.key p = d.key bce := by
    rw [(cached_some found).2, ← isNai, ← sited.serving p before]
  exact notAfter (unique p before isKey ▸ member)

theorem Gone.run (isMag : conf.mip6Entity = .mag) {mnNai : Nai} {later : List MagInput}
    {final : Daemon} (gone : Gone mnNai d) (sited : Sited conf d)
    (finished : Runs.run (magStep conf) d later = .ok final)
    (away : Meets (magStep conf) (fun d input => ¬Attaches conf mnNai d input) d later) :
    Gone mnNai final := by
  have keeps : ∀ (d : Daemon) (input : MagInput) (next : Daemon),
      Gone mnNai d ∧ Sited conf d → ¬Attaches conf mnNai d input →
        d.magStep conf input = .ok next → Gone mnNai next ∧ Sited conf next := by
    intro d input next held elsewhere taken
    obtain ⟨gone, sited⟩ := held
    have move := magStep_move isMag taken
    exact ⟨gone.move sited elsewhere move, sited.move move⟩
  exact (run_invariant keeps ⟨gone, sited⟩ away finished).1

theorem Sited.reached (isMag : conf.mip6Entity = .mag) {kernel : TunnelEnv} {link : Int}
    {tun : Tunnels} (started : Tunnels.pmipTunnelsInit conf kernel link = .ok tun)
    {hnp : List MnidHnp} {inputs : List MagInput}
    (finished : Runs.run (magStep conf) (Daemon.init tun hnp) inputs = .ok d) : Sited conf d :=
  run_invariant (fun _ _ _ sited (_ : True) taken => sited.move (magStep_move isMag taken))
    (Sited.init conf started hnp) (meets_always (fun _ _ => trivial) inputs _) finished

end Deassociations

/-- In every state the gateway can reach, a deassociation removes the node for
good exactly where its entry is registered and the only one of its key. -/
theorem detachment_iff (conf : Conf) (isMag : conf.mip6Entity = .mag) (kernel : TunnelEnv)
    (link : Int) (tun : Tunnels) (started : Tunnels.pmipTunnelsInit conf kernel link = .ok tun)
    (hnp : List MnidHnp) (inputs : List MagInput) (d : Daemon)
    (finished : run (magStep conf) (init tun hnp) inputs = .ok d) (info : MsgInfo) (env : Env)
    (isDereg : info.msgEvent = .hasDEREG) (bce : Nat)
    (found : d.cached info.mnNai conf.ourAddress = some bce) :
    Detaches conf d info env ↔ Removable d bce := by
  have sited := Sited.reached isMag started finished
  obtain ⟨member, isKey⟩ := cached_some found
  have isNai : (d.key bce).mnNai = info.mnNai := by rw [isKey]
  constructor
  · intro detaches
    obtain ⟨after, taken, away⟩ := detaches
    obtain ⟨gone, -⟩ := away [] after rfl trivial
    by_contra stays
    by_cases registered : (d.heap bce).type = .pmip
    · -- a second entry of the key is left
      obtain ⟨next, goes, key, removed⟩ := dereg_removes sited env isDereg found registered
      have same : next = after := by
        have both := goes.symm.trans taken
        cases both
        rfl
      subst same
      apply stays
      refine ⟨registered, ?_⟩
      intro other isEntry sameKey
      by_contra different
      have remains : other ∈ next.entries :=
        (List.mem_cons.mp (removed.mem_iff.mp isEntry)).resolve_left different
      have named : (next.key other).mnNai = info.mnNai := by rw [key, sameKey, isNai]
      exact gone other remains named
    · -- the event is ignored
      obtain ⟨used, ignored⟩ := dereg_ignored env isDereg
        fun isPmip => registered (cachedType_some isPmip found)
      have same : d.touch used = after := by
        have both := ignored.symm.trans taken
        cases both
        rfl
      subst same
      exact gone bce member isNai
  · intro removable
    obtain ⟨registered, unique⟩ := removable
    obtain ⟨after, taken, key, removed⟩ := dereg_removes sited env isDereg found registered
    have gone := gone_of_removed sited found unique key removed
    have stillSited := sited.move (magFsm_move taken)
    refine ⟨after, taken, ?_⟩
    intro later final ends away
    have stays := gone.run isMag stillSited ends away
    exact ⟨stays, fun pba env isPba names => stays.acknowledged env isPba names⟩

/-- A registered node leaves. -/
theorem detachment_iff_leaves :
    ∃ d, run (magStep (confDynamic .mag)) (init Tunnels.init twoNodes) (joins 1 0 10) = .ok d ∧
      Detaches (confDynamic .mag) d
        { MsgInfo.zero with msgEvent := .hasDEREG, mnNai := nodeNai 1 } (Env.ample ⟨110, 0⟩ 12) := by
  refine ⟨_, rfl, ?_⟩
  have exact_ := detachment_iff (confDynamic .mag) rfl ⟨none, false⟩ 0 Tunnels.init rfl twoNodes
    (joins 1 0 10) _ rfl { MsgInfo.zero with msgEvent := .hasDEREG, mnNai := nodeNai 1 }
    (Env.ample ⟨110, 0⟩ 12) rfl 0 (by decide +kernel)
  exact exact_.mpr (by decide +kernel)

/-- A node leaves before its update is acknowledged: its entry stays. -/
theorem detached_node_stays :
    ¬ ∀ (inputs : List MagInput) (d : Daemon) (info : MsgInfo) (env : Env) (bce : Nat),
      run (magStep (confDynamic .mag)) (init Tunnels.init twoNodes) inputs = .ok d →
        info.msgEvent = .hasDEREG → d.cached info.mnNai (confDynamic .mag).ourAddress = some bce →
          Detaches (confDynamic .mag) d info env := by
  intro claimed
  obtain ⟨after, taken, away⟩ := claimed ((joins 1 0 10).take 1) _
    { MsgInfo.zero with msgEvent := .hasDEREG, mnNai := nodeNai 1 } (Env.ample ⟨110, 0⟩ 12) 0 rfl
    rfl (by decide +kernel)
  cases taken
  have gone := (away [] _ rfl trivial).1 0 (by decide +kernel)
  revert gone
  decide +kernel

end OaiPmip.Daemon
