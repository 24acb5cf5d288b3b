import OaiPmip.LmaTimers

/-!
# The client routes of the anchor

`lma_reg` notes the MAG of a binding in the list of client routes and
`lma_dereg` takes it out again, without a check that it is there.  The list and
the binding cache name the same pairs of a node and a MAG as long as there is
memory, so what is taken out is always found.
-/

set_option autoImplicit false

namespace OaiPmip

open OaiPmip.HashKeys OaiPmip.Msgs OaiPmip.Runs

namespace ClientRoutes

def Routes (clients : List ClientRoute) (clientNai : Nai) (mag : In6Addr) : Prop :=
  ∃ client ∈ clients, client.clientNai = clientNai ∧ mag ∈ client.mags

/-- Every client is listed once, with at least one MAG and no MAG twice. -/
structure WellFormed (clients : List ClientRoute) : Prop where
  nais : (clients.map fun client => client.clientNai).Nodup
  mags : ∀ client ∈ clients, client.mags ≠ [] ∧ client.mags.Nodup

variable {clients : List ClientRoute} {clientNai : Nai} {mag : In6Addr}

theorem find_some {client : ClientRoute} (found : find clients clientNai = some client) :
    client ∈ clients ∧ client.clientNai = clientNai := by
  simp only [find] at found
  exact ⟨List.mem_of_find?_eq_some found, by simpa using List.find?_some found⟩

theorem find_none (missing : find clients clientNai = none) :
    ∀ client ∈ clients, client.clientNai ≠ clientNai := by
  simp only [find] at missing
  simpa using missing

theorem WellFormed.unique (ok : WellFormed clients) {first second : ClientRoute}
    (isFirst : first ∈ clients) (isSecond : second ∈ clients)
    (same : first.clientNai = second.clientNai) : first = second :=
  List.inj_on_of_nodup_map ok.nais isFirst isSecond same

theorem WellFormed.tail {client : ClientRoute} (ok : WellFormed (client :: clients)) :
    WellFormed clients where
  nais := (List.nodup_cons.mp ok.nais).2
  mags := fun other member => ok.mags other (List.mem_cons_of_mem client member)

theorem WellFormed.routes_iff (ok : WellFormed clients) {client : ClientRoute}
    (member : client ∈ clients) :
    Routes clients client.clientNai mag ↔ mag ∈ client.mags := by
  constructor
  · intro given
    obtain ⟨other, isOther, same, listed⟩ := given
    rw [ok.unique isOther member same] at listed
    exact listed
  · exact fun listed => ⟨client, member, rfl, listed⟩

theorem setMags_nais (mags : List In6Addr) :
    (setMags clientNai mags clients).map (fun client => client.clientNai) =
      clients.map fun client => client.clientNai := by
  induction clients with
  | nil => rfl
  | cons client rest ih =>
      simp only [setMags]
      split
      · rfl
      · simp only [List.map_cons, ih]

theorem WellFormed.mem_setMags (ok : WellFormed clients) {mags : List In6Addr}
    {client : ClientRoute} (listed : client ∈ clients) (isNai : client.clientNai = clientNai)
    (other : ClientRoute) :
    other ∈ setMags clientNai mags clients ↔
      other = { client with mags := mags } ∨ other ∈ clients ∧ other.clientNai ≠ clientNai := by
  induction clients with
  | nil => cases listed
  | cons first rest ih =>
      have fresh := (List.nodup_cons.mp ok.nais).1
      simp only [setMags]
      split
      · rename_i here
        have isFirst : client = first :=
          ok.unique listed List.mem_cons_self (isNai.trans here.symm)
        have elsewhere : ∀ later ∈ rest, later.clientNai ≠ clientNai := by
          intro later member same
          exact fresh (List.mem_map.mpr ⟨later, member, same.trans here.symm⟩)
        rw [List.mem_cons, isFirst]
        constructor
        · intro either
          rcases either with new | later
          · exact Or.inl new
          · exact Or.inr ⟨List.mem_cons_of_mem first later, elsewhere other later⟩
        · intro either
          rcases either with new | ⟨member, different⟩
          · exact Or.inl new
          · rcases List.mem_cons.mp member with rfl | later
            · exact absurd here different
            · exact Or.inr later
      · rename_i notHere
        have later : client ∈ rest := by
          rcases List.mem_cons.mp listed with rfl | later
          · exact absurd isNai notHere
          · exact later
        rw [List.mem_cons, ih ok.tail later]
        constructor
        · intro either
          rcases either with rfl | new | ⟨member, different⟩
          · exact Or.inr ⟨List.mem_cons_self, notHere⟩
          · exact Or.inl new
          · exact Or.inr ⟨List.mem_cons_of_mem first member, different⟩
        · intro either
          rcases either with new | ⟨member, different⟩
          · exact Or.inr (Or.inl new)
          · rcases List.mem_cons.mp member with isFirst | later
            · exact Or.inl isFirst
            · exact Or.inr (Or.inr ⟨later, different⟩)

theorem WellFormed.setMags (ok : WellFormed clients) {mags : List In6Addr}
    {client : ClientRoute} (listed : client ∈ clients) (isNai : client.clientNai = clientNai)
    (someMag : mags ≠ []) (once : mags.Nodup) :
    WellFormed (setMags clientNai mags clients) where
  nais := by
    rw [setMags_nais]
    exact ok.nais
  mags := by
    intro other member
    rcases (ok.mem_setMags listed isNai other).mp member with rfl | ⟨before, _⟩
    · exact ⟨someMag, once⟩
    · exact ok.mags other before

theorem WellFormed.routes_setMags (ok : WellFormed clients) {mags : List In6Addr}
    {client : ClientRoute} (listed : client ∈ clients) (isNai : client.clientNai = clientNai)
    (nai : Nai) (at_ : In6Addr) :
    Routes (ClientRoutes.setMags clientNai mags clients) nai at_ ↔
      if nai = clientNai then at_ ∈ mags else Routes clients nai at_ := by
  simp only [Routes]
  simp only [ok.mem_setMags listed isNai]
  constructor
  · intro given
    rcases given with ⟨other, rfl | ⟨member, different⟩, rfl, held⟩
    · simpa [isNai] using held
    · rw [if_neg different]
      exact ⟨other, member, rfl, held⟩
  · split
    · rename_i same
      exact fun held => ⟨_, Or.inl rfl, isNai.trans same.symm, held⟩
    · rename_i different
      intro given
      obtain ⟨other, member, rfl, held⟩ := given
      exact ⟨other, Or.inr ⟨member, different⟩, rfl, held⟩

/-! ## Adding and removing a route -/

theorem WellFormed.addClientRoute (ok : WellFormed clients) (clientNai : Nai) (mag : In6Addr) :
    ∃ next, addClientRoute clients clientNai mag true true = .ok next ∧ WellFormed next ∧
      ∀ nai at_, Routes next nai at_ ↔
        Routes clients nai at_ ∨ nai = clientNai ∧ at_ = mag := by
  simp only [ClientRoutes.addClientRoute]
  cases found : find clients clientNai with
  | none =>
      have new := find_none found
      refine ⟨⟨clientNai, [mag]⟩ :: clients, by simp [addMagToClient], ?_, ?_⟩
      · constructor
        · rw [List.map_cons, List.nodup_cons]
          refine ⟨fun present => ?_, ok.nais⟩
          obtain ⟨client, member, same⟩ := List.mem_map.mp present
          exact new client member same
        · intro client member
          rcases List.mem_cons.mp member with rfl | before
          · simp
          · exact ok.mags client before
      · intro nai at_
        simp only [Routes, List.mem_cons, exists_eq_or_imp, List.not_mem_nil, or_false]
        constructor
        · intro either
          rcases either with ⟨same, isMag⟩ | before
          · exact Or.inr ⟨same.symm, isMag⟩
          · exact Or.inl before
        · intro either
          rcases either with before | ⟨same, isMag⟩
          · exact Or.inr before
          · exact Or.inl ⟨same.symm, isMag⟩
  | some client =>
      obtain ⟨listed, isNai⟩ := find_some found
      obtain ⟨someMag, once⟩ := ok.mags client listed
      have held : ∀ at_, Routes clients clientNai at_ ↔ at_ ∈ client.mags := by
        intro at_
        rw [← isNai]
        exact ok.routes_iff listed
      by_cases present : mag ∈ client.mags
      · refine ⟨ClientRoutes.setMags clientNai client.mags clients,
          by simp [addMagToClient, present], ok.setMags listed isNai someMag once, ?_⟩
        intro nai at_
        rw [ok.routes_setMags listed isNai]
        split
        · rename_i same
          rw [same, held]
          constructor
          · exact Or.inl
          · intro either
            rcases either with before | ⟨_, rfl⟩
            · exact before
            · exact present
        · rename_i different
          simp [different]
      · refine ⟨ClientRoutes.setMags clientNai (mag :: client.mags) clients,
          by simp [addMagToClient, present],
          ok.setMags listed isNai (List.cons_ne_nil _ _) (List.nodup_cons.mpr ⟨present, once⟩), ?_⟩
        intro nai at_
        rw [ok.routes_setMags listed isNai]
        split
        · rename_i same
          rw [same, held, List.mem_cons]
          constructor
          · intro either
            rcases either with here | before
            · exact Or.inr ⟨rfl, here⟩
            · exact Or.inl before
          · intro either
            rcases either with before | ⟨_, here⟩
            · exact Or.inr before
            · exact Or.inl here
        · rename_i different
          simp [different]

theorem WellFormed.mem_eraseP (ok : WellFormed clients) (other : ClientRoute) :
    other ∈ clients.eraseP (fun client => client.clientNai = clientNai) ↔
      other ∈ clients ∧ other.clientNai ≠ clientNai := by
  induction clients with
  | nil => simp
  | cons first rest ih =>
      have fresh := (List.nodup_cons.mp ok.nais).1
      by_cases here : first.clientNai = clientNai
      · rw [List.eraseP_cons_of_pos (by simpa using here), List.mem_cons]
        constructor
        · intro later
          refine ⟨Or.inr later, fun same => ?_⟩
          exact fresh (List.mem_map.mpr ⟨other, later, same.trans here.symm⟩)
        · intro given
          rcases given with ⟨rfl | later, different⟩
          · exact absurd here different
          · exact later
      · rw [List.eraseP_cons_of_neg (by simpa using here), List.mem_cons, List.mem_cons,
          ih ok.tail]
        constructor
        · intro either
          rcases either with rfl | ⟨later, different⟩
          · exact ⟨Or.inl rfl, here⟩
          · exact ⟨Or.inr later, different⟩
        · intro given
          rcases given with ⟨rfl | later, different⟩
          · exact Or.inl rfl
          · exact Or.inr ⟨later, different⟩

theorem WellFormed.removeClientRoute (ok : WellFormed clients)
    (listed : Routes clients clientNai mag) :
    ∃ next, removeClientRoute clients clientNai mag = .ok next ∧ WellFormed next ∧
      ∀ nai at_, Routes next nai at_ ↔
        Routes clients nai at_ ∧ ¬ (nai = clientNai ∧ at_ = mag) := by
  simp only [ClientRoutes.removeClientRoute]
  cases found : find clients clientNai with
  | none =>
      obtain ⟨client, member, isNai, _⟩ := listed
      exact absurd isNai (find_none found client member)
  | some client =>
      obtain ⟨member, isNai⟩ := find_some found
      obtain ⟨_, once⟩ := ok.mags client member
      have held : ∀ at_, Routes clients clientNai at_ ↔ at_ ∈ client.mags := by
        intro at_
        rw [← isNai]
        exact ok.routes_iff member
      have present : mag ∈ client.mags := (held mag).mp listed
      simp only [present, if_true]
      by_cases last : client.mags.erase mag = []
      · refine ⟨clients.eraseP fun other => other.clientNai = clientNai, by simp [last], ?_, ?_⟩
        · constructor
          · exact (List.Sublist.map _ List.eraseP_sublist).nodup ok.nais
          · exact fun other remains => ok.mags other (List.mem_of_mem_eraseP remains)
        · have only : ∀ at_ ∈ client.mags, at_ = mag := by
            intro at_ isMag
            by_contra different
            have remains := (List.mem_erase_of_ne different).mpr isMag
            simp [last] at remains
          intro nai at_
          constructor
          · intro given
            obtain ⟨other, remains, rfl, isMag⟩ := given
            obtain ⟨before, different⟩ := (ok.mem_eraseP other).mp remains
            exact ⟨⟨other, before, rfl, isMag⟩, fun both => different both.1⟩
          · intro given
            obtain ⟨⟨other, before, rfl, isMag⟩, kept⟩ := given
            refine ⟨other, (ok.mem_eraseP other).mpr ⟨before, fun same => ?_⟩, rfl, isMag⟩
            rw [ok.unique before member (same.trans isNai.symm)] at isMag
            exact kept ⟨same, only at_ isMag⟩
      · refine ⟨ClientRoutes.setMags clientNai (client.mags.erase mag) clients, by simp [last],
          ok.setMags member isNai last (once.erase mag), ?_⟩
        intro nai at_
        rw [ok.routes_setMags member isNai]
        split
        · rename_i same
          rw [same, held, once.mem_erase_iff]
          constructor
          · exact fun remains => ⟨remains.2, fun both => remains.1 both.2⟩
          · exact fun kept => ⟨fun isMag => kept.2 ⟨rfl, isMag⟩, kept.1⟩
        · rename_i different
          simp [different]

end ClientRoutes

namespace Daemon

/-- The list of client routes and the binding cache name the same pairs. -/
structure ClientsMirror (d : Daemon) : Prop extends ClientRoutes.WellFormed d.clients where
  pairs : ∀ clientNai mag,
    ClientRoutes.Routes d.clients clientNai mag ↔ ⟨clientNai, mag⟩ ∈ d.entries.map d.key

def Routed (failure : Crash × Daemon) : Prop := failure.1 ≠ .nullRoute

theorem TunnelFault.routed (failure : Crash × Daemon) (fault : TunnelFault failure) :
    Routed failure := by
  intro isNull
  rcases fault with isIndex | isAssert
  · cases isIndex.symm.trans isNull
  · cases isAssert.symm.trans isNull

section Procedures
variable (conf : Conf) (d : Daemon) (env : Env) (bce : Nat)

theorem lmaRegNoNewTunnel_clients : (d.lmaRegNoNewTunnel conf env bce).clients = d.clients := by
  unfold lmaRegNoNewTunnel mhSendPba
  dsimp only
  split <;> rfl

theorem ends_lmaReg (wellFormed : ClientRoutes.WellFormed d.clients)
    (clientMemory : env.clientAlloc = true) (magMemory : env.magAlloc = true) :
    Ends Routed (fun d' => ClientRoutes.WellFormed d'.clients ∧ ∀ nai mag,
        ClientRoutes.Routes d'.clients nai mag ↔
          ClientRoutes.Routes d.clients nai mag ∨ d.key bce = ⟨nai, mag⟩)
      (d.lmaReg conf env bce) := by
  simp only [lmaReg]
  apply ((unanswered_tunnelAdd conf (d.touch [bce]) env bce _ _).forgive TunnelFault.routed).bind
  intro tunnelled opened quiet
  have clients := (lmaRegNoNewTunnel_clients conf (tunnelled.lmaForward conf bce) env bce).trans
    ((unanswered_lmaForward conf tunnelled bce).clients.trans quiet.clients)
  have isKey : ((tunnelled.lmaForward conf bce).lmaRegNoNewTunnel conf env bce).key bce =
      d.key bce := by
    have opens := (frame_tunnelAdd PmipEntry.untunnelled (d.touch [bce]) bce (fun _ _ => rfl)
      conf env _ _).of_ok opened
    have works := ((opens.trans (frame_lmaForward conf tunnelled bce)).trans
      (frame_lmaRegNoNewTunnel conf _ env bce).untunnelled).whose
    exact congrFun works.key bce
  obtain ⟨next, added, ok, routes⟩ := wellFormed.addClientRoute
    (((tunnelled.lmaForward conf bce).lmaRegNoNewTunnel conf env bce).heap bce).mnNai
    (((tunnelled.lmaForward conf bce).lmaRegNoNewTunnel conf env bce).heap bce).mnServMagAddr
  dsimp only [addClientRoute]
  rw [clients, clientMemory, magMemory]
  dsimp only [touch]
  rw [added]
  refine ⟨ok, fun nai mag => ?_⟩
  change ClientRoutes.Routes next nai mag ↔ _
  rw [routes, ← isKey, key, PmipEntry.key, PmipKey.mk.injEq]
  exact or_congr Iff.rfl (and_congr eq_comm eq_comm)

theorem ends_lmaDereg (seqno : Option UInt16) (wellFormed : ClientRoutes.WellFormed d.clients)
    (listed : ClientRoutes.Routes d.clients (d.heap bce).mnNai (d.heap bce).mnServMagAddr) :
    Ends Routed (fun d' => ClientRoutes.WellFormed d'.clients ∧ ∀ nai mag,
        ClientRoutes.Routes d'.clients nai mag ↔
          ClientRoutes.Routes d.clients nai mag ∧ d.key bce ≠ ⟨nai, mag⟩)
      (d.lmaDereg conf env bce seqno) := by
  simp only [lmaDereg]
  apply ((unanswered_lmaRelease conf (d.delTask bce) env bce).forgive TunnelFault.routed).bind
  intro released release quiet
  have isKey : released.key bce = d.key bce := by
    have releases := (frame_lmaRelease conf (d.delTask bce) env bce PmipEntry.owner
      fun _ _ => rfl).of_ok release
    exact congrFun releases.key bce
  have isNai : (released.heap bce).mnNai = (d.heap bce).mnNai := congrArg PmipKey.mnNai isKey
  have isMag : (released.heap bce).mnServMagAddr = (d.heap bce).mnServMagAddr :=
    congrArg PmipKey.magAddress isKey
  obtain ⟨next, removed, ok, routes⟩ := wellFormed.removeClientRoute listed
  have clients : released.clients = d.clients := quiet.clients
  dsimp only [removeClientRoute]
  rw [clients, isNai, isMag, removed]
  have answered : ∀ mid : Daemon,
      (mid.acknowledge conf env bce seqno).clients = mid.clients := by
    intro mid
    simp only [acknowledge, mhSendPba]
    cases seqno with
    | none => rfl
    | some seqno =>
        dsimp only
        split <;> rfl
  dsimp only [ok_bind, Ends, pure, Except.pure, modify, touch]
  rw [answered]
  refine ⟨ok, fun nai mag => ?_⟩
  change ClientRoutes.Routes next nai mag ↔ _
  rw [routes, key, PmipEntry.key, Ne, PmipKey.mk.injEq]
  exact and_congr Iff.rfl (not_congr (and_congr eq_comm eq_comm))

end Procedures

/-! ## The invariant -/

section Keys
variable {conf : Conf} {d d' : Daemon} {env : Env} {info : MsgInfo} {bce : Nat}

theorem LmaArmed.registered_keys (ok : LmaArmed d) (missing : d.cached info.mnNai info.src = none)
    (memory : env.nodeAlloc = true) {updated filled : Daemon}
    (update : (d.admitted info).lmaUpdateBindingEntry conf env d.top info = .ok updated)
    (reg : updated.lmaReg conf env d.top = .ok filled) (k : PmipKey) :
    k ∈ (filled.pmipCacheAdd conf env d.top).entries.map (filled.pmipCacheAdd conf env d.top).key ↔
      k ∈ d.entries.map d.key ∨ (⟨info.mnNai, info.src⟩ : PmipKey) = k := by
  obtain ⟨_, _, isKey⟩ := ok.toLmaOk.admission update reg
  obtain ⟨_, _, old, _⟩ := ok.toLmaOk.registered missing update reg
  have keys := (pmipCacheAdd_added conf filled env d.top).key
  have before : d.entries.map filled.key = d.entries.map d.key := by
    apply List.map_congr_left
    intro p member
    simp only [Daemon.key, old p member]
  rw [keys, ((ok.joined missing memory update reg).map _).mem_iff, List.map_cons, List.mem_cons,
    isKey, before]
  constructor
  · intro either
    rcases either with here | earlier
    · exact Or.inr here.symm
    · exact Or.inl earlier
  · intro either
    rcases either with earlier | here
    · exact Or.inr earlier
    · exact Or.inl here.symm

theorem LmaArmed.deleted_keys (ok : LmaArmed d) (member : bce ∈ d.entries)
    (frame : Frame PmipEntry.owner bce d d') (k : PmipKey) :
    k ∈ (d'.pmipBceDelete bce).entries.map (d'.pmipBceDelete bce).key ↔
      k ∈ d.entries.map d.key ∧ d.key bce ≠ k := by
  have perm := (ok.removed member frame).map d.key
  rw [List.map_cons] at perm
  have once := perm.nodup_iff.mp ok.keys
  rw [delete_key, frame.key, perm.mem_iff, List.mem_cons]
  constructor
  · intro remains
    refine ⟨Or.inr remains, fun same => ?_⟩
    exact (List.nodup_cons.mp once).1 (same ▸ remains)
  · intro given
    rcases given with ⟨here | remains, different⟩
    · exact absurd here.symm different
    · exact remains

end Keys

structure MirrorOk (d : Daemon) : Prop extends LmaExpiring d where
  mirror : ClientsMirror d

def Allocates (env : Env) : Prop :=
  env.nodeAlloc = true ∧ env.clientAlloc = true ∧ env.magAlloc = true

namespace MirrorOk

variable {conf : Conf} {d d' : Daemon} {env : Env} {info : MsgInfo} {bce : Nat}

theorem listed (ok : MirrorOk d) (member : bce ∈ d.entries) :
    ClientRoutes.Routes d.clients (d.heap bce).mnNai (d.heap bce).mnServMagAddr :=
  (ok.mirror.pairs _ _).mpr (List.mem_map.mpr ⟨bce, member, rfl⟩)

/-- A binding that is deregistered and deleted leaves the list and the cache. -/
theorem ends_deleted (ok : MirrorOk d) (member : bce ∈ d.entries) (env : Env)
    (seqno : Option UInt16) {start : Daemon} (begins : Frame PmipEntry.owner bce d start)
    (clients : start.clients = d.clients) :
    Ends Routed (fun mid => ClientsMirror (mid.pmipBceDelete bce))
      (start.lmaDereg conf env bce seqno) := by
  have isKey : start.key bce = d.key bce := congrFun begins.key bce
  have wellFormed : ClientRoutes.WellFormed start.clients := by
    rw [clients]
    exact ok.mirror.toWellFormed
  have present : ClientRoutes.Routes start.clients (start.heap bce).mnNai
      (start.heap bce).mnServMagAddr := by
    have isNai : (start.heap bce).mnNai = (d.heap bce).mnNai := congrArg PmipKey.mnNai isKey
    have isMag : (start.heap bce).mnServMagAddr = (d.heap bce).mnServMagAddr :=
      congrArg PmipKey.magAddress isKey
    rw [clients, isNai, isMag]
    exact ok.listed member
  apply (ends_lmaDereg conf start env bce seqno wellFormed present).imp
  rintro mid dereg ⟨formed, routes⟩
  have frame := begins.trans ((frame_lmaDereg conf start env bce seqno).of_ok dereg)
  refine { formed with pairs := fun clientNai mag => ?_ }
  change ClientRoutes.Routes mid.clients clientNai mag ↔ _
  rw [routes, ok.toLmaArmed.deleted_keys member frame, clients, isKey, ok.mirror.pairs]

theorem ends_noEntry (ok : MirrorOk d) (allocates : Allocates env)
    (missing : d.cached info.mnNai info.src = none) :
    Ends Routed ClientsMirror (d.lmaNoEntry conf env info) := by
  simp only [lmaNoEntry]
  split
  · rw [pmipCacheAlloc_eq]
    cases isAllocated : env.entryAlloc with
    | false => exact ok.mirror
    | true =>
        apply ((unanswered_lmaUpdate conf (d.admitted info) env d.top info).forgive
          TunnelFault.routed).bind
        intro updated update quiet
        have wellFormed : ClientRoutes.WellFormed updated.clients := by
          rw [quiet.clients]
          exact ok.mirror.toWellFormed
        apply (ends_lmaReg conf updated env d.top wellFormed allocates.2.1 allocates.2.2).bind
        rintro filled reg ⟨formed, routes⟩
        have clients := (pmipCacheAdd_keeps conf filled env d.top).2
        refine { toWellFormed := clients ▸ formed, pairs := fun clientNai mag => ?_ }
        have before : ClientRoutes.Routes updated.clients clientNai mag ↔ _ :=
          quiet.clients ▸ ok.mirror.pairs clientNai mag
        rw [clients, routes, before, lmaUpdate_key update,
          ok.toLmaArmed.registered_keys missing allocates.1 update reg]
  · exact ok.mirror

theorem ends_lmaFirstMag (ok : MirrorOk d) (allocates : Allocates env)
    (found : d.cached info.mnNai info.src = some bce) :
    Ends Routed (fun start => ClientRoutes.WellFormed start.clients ∧
        ∀ nai mag, ClientRoutes.Routes start.clients nai mag ↔
          ClientRoutes.Routes d.clients nai mag)
      (d.lmaFirstMag conf env info bce) := by
  obtain ⟨member, isKey⟩ := cached_some found
  simp only [lmaFirstMag]
  split
  · apply ((unanswered_lmaUpdate conf d env bce info).forgive TunnelFault.routed).bind
    intro first update quiet
    have wellFormed : ClientRoutes.WellFormed first.clients := by
      rw [quiet.clients]
      exact ok.mirror.toWellFormed
    apply (ends_lmaReg conf first env bce wellFormed allocates.2.1 allocates.2.2).imp
    rintro start reg ⟨formed, routes⟩
    refine ⟨formed, fun nai mag => ?_⟩
    rw [routes, quiet.clients, lmaUpdate_key update, ← isKey]
    constructor
    · intro either
      rcases either with before | here
      · exact before
      · rw [ok.mirror.pairs, ← here]
        exact List.mem_map.mpr ⟨bce, member, rfl⟩
    · exact Or.inl
  · exact ⟨ok.mirror.toWellFormed, fun _ _ => Iff.rfl⟩

theorem ends_refresh (ok : MirrorOk d) (allocates : Allocates env)
    (found : d.cached info.mnNai info.src = some bce) :
    Ends Routed (fun next => ClientsMirror (next.getMnAddr bce))
      (d.lmaRefresh conf env info bce) := by
  have serving := cached_mag found
  have kept : Ends Routed (fun next => ClientRoutes.WellFormed next.clients ∧
      ∀ nai mag, ClientRoutes.Routes next.clients nai mag ↔
        ClientRoutes.Routes d.clients nai mag) (d.lmaRefresh conf env info bce) := by
    simp only [lmaRefresh]
    apply (ok.ends_lmaFirstMag allocates found).bind
    intro start began still
    rw [if_pos (lmaFirstMag_ok serving began).1]
    apply ((unanswered_lmaUpdate conf start env bce info).forgive TunnelFault.routed).bind
    intro updated _ quiet
    have clients := (lmaRegNoNewTunnel_clients conf updated env bce).trans quiet.clients
    change ClientRoutes.WellFormed (updated.lmaRegNoNewTunnel conf env bce).clients ∧ _
    rw [clients]
    exact still
  apply kept.imp
  rintro next refresh ⟨formed, routes⟩
  obtain ⟨start, updated, began, update, rfl⟩ := lmaRefresh_ok serving refresh
  refine { toWellFormed := formed, pairs := fun clientNai mag => ?_ }
  have frame := frame_refreshed began update
  have keys : d.entries.map ((updated.lmaRegNoNewTunnel conf env bce).getMnAddr bce).key =
      d.entries.map d.key := by
    apply List.map_congr_left
    intro p member
    by_cases here : p = bce
    · rw [here, refreshed_key update, (cached_some found).2]
    · simp only [Daemon.key, frame.others p here]
  rw [frame.entries, keys, ← ok.mirror.pairs]
  exact routes clientNai mag

theorem mirror_modify_outside (mirror : ClientsMirror d) (outside : bce ∉ d.entries)
    (write : PmipEntry → PmipEntry) : ClientsMirror (d.modify bce write) := by
  have keys : d.entries.map (d.modify bce write).key = d.entries.map d.key := by
    apply List.map_congr_left
    intro p member
    simp only [Daemon.key, modify_others outside write p member]
  refine { toWellFormed := mirror.toWellFormed, pairs := fun clientNai mag => ?_ }
  change _ ↔ _ ∈ d.entries.map (d.modify bce write).key
  rw [keys]
  exact mirror.pairs clientNai mag

theorem ends_fsm (ok : MirrorOk d) (allocates : Allocates env)
    (fromMag : info.mnServMagAddr = info.src) :
    Ends Routed ClientsMirror (d.lmaFsm conf env info) := by
  rw [ok.toLmaOk.lmaFsm_eq conf env fromMag]
  cases found : d.cached info.mnNai info.src with
  | none => exact ok.ends_noEntry allocates found
  | some bce =>
      have member := (cached_some found).1
      dsimp only
      split
      · exact (ok.ends_refresh allocates found).bind fun next _ mirror => mirror
      · split
        · apply (ok.ends_deleted member env (some info.seqno) (Frame.refl _ bce d) rfl).bind
          intro mid dereg mirror
          have frame := (frame_lmaDereg conf d env bce (some info.seqno)).of_ok dereg
          exact mirror_modify_outside mirror
            (ok.toHashOk.frame_owner (ok.live bce member) frame).delete_notMem _
        · intro isNull
          cases isNull

theorem ends_fire (ok : MirrorOk d) (isLma : conf.mip6Entity = .ha) :
    Ends Routed ClientsMirror (d.fire conf env) := by
  simp only [fire]
  cases isPopped : d.tun.tq.runner env.now with
  | none => exact ok.mirror
  | some pair =>
      obtain ⟨element, tq⟩ := pair
      obtain ⟨queued, rfl⟩ := TQueue.runner_some isPopped
      cases element with
      | tunnel mag => exact { toWellFormed := ok.mirror.toWellFormed, pairs := ok.mirror.pairs }
      | bce bce =>
          simp only [TQueue.delTask_task, ok.expires queued, pmipTimerBceExpiredHandler, isLma]
          exact (ok.ends_deleted (ok.armed bce queued) env none (frame_popped _ d bce) rfl).bind
            fun mid _ mirror => mirror

end MirrorOk

def LmaAllocates : LmaInput → Prop
  | .message _ env => Allocates env
  | .fire env => Allocates env

theorem lmaStep_mirror {conf : Conf} (isLma : conf.mip6Entity = .ha) {dupBeyond : Nat → Bool}
    (d : Daemon) (input : LmaInput) (allocates : LmaAllocates input) (ok : MirrorOk d) :
    Ends Routed MirrorOk (d.lmaStep conf dupBeyond input) := by
  cases input with
  | message m env =>
      obtain ⟨isSrc, isMag⟩ := parsedPbu_src conf dupBeyond m
      have fromMag := isMag.trans isSrc.symm
      apply (ok.ends_fsm allocates fromMag).imp
      intro d' taken mirror
      have moved := lmaFsm_move ok.toLmaOk fromMag taken
      exact { ok.toLmaExpiring.move (fun _ _ => allocates.1) moved with mirror := mirror }
  | fire env =>
      apply (ok.ends_fire isLma).imp
      intro d' taken mirror
      exact { ok.toLmaExpiring.tick (fire_tick isLma taken) with mirror := mirror }

theorem mirrorOk_init {tun : Tunnels} (idle : tun.tq = TQueue.empty TqElem) (hnp : List MnidHnp) :
    MirrorOk (init tun hnp) := by
  refine { lmaExpiring_init idle hnp with mirror := ?_ }
  constructor
  · exact ⟨List.nodup_nil, fun client member => by cases member⟩
  · intro clientNai mag
    simp [ClientRoutes.Routes, entries, init]

/-- With memory for what they allocate, the anchor's runs end with the client
routes and the binding cache naming the same pairs, and no run ends with a
client or a MAG that is not found in the list. -/
theorem lma_clients_mirror (conf : Conf) (isLma : conf.mip6Entity = .ha)
    (dupBeyond : Nat → Bool) (tun : Tunnels) (idle : tun.tq = TQueue.empty TqElem)
    (hnp : List MnidHnp) (inputs : List LmaInput)
    (allocates : ∀ input ∈ inputs, LmaAllocates input) :
    Ends Routed ClientsMirror (run (lmaStep conf dupBeyond) (init tun hnp) inputs) :=
  (run_ends (fun d input member ok => lmaStep_mirror isLma d input (allocates input member) ok)
    (mirrorOk_init idle hnp)).imp fun _ _ ok => ok.mirror

/-- A registration at one MAG and its expiry. -/
theorem lma_clients_mirror_expired :
    ∃ final, run (lmaStep (confDynamic .ha) fun _ => false) (init Tunnels.init [])
        [.message (bareUpdate 1 10) (Env.ample ⟨100, 0⟩ 10), .fire (Env.ample ⟨200, 0⟩ 10)] =
          .ok final ∧ final.clients = [] ∧ ClientsMirror final := by
  refine ⟨_, rfl, by decide, ?_⟩
  have ends := lma_clients_mirror (confDynamic .ha) rfl (fun _ => false) Tunnels.init rfl []
    [.message (bareUpdate 1 10) (Env.ample ⟨100, 0⟩ 10), .fire (Env.ample ⟨200, 0⟩ 10)] (by
      intro input member
      rcases List.mem_cons.mp member with rfl | later
      · exact ⟨rfl, rfl, rfl⟩
      · rw [List.mem_singleton.mp later]
        exact ⟨rfl, rfl, rfl⟩)
  exact ends.of_ok rfl

end Daemon

end OaiPmip
