import OaiPmip.Cache

/-!
# The map from identifiers to home network prefixes, pmip_hnp_cache.c

`g_mn_hn_map` up to `g_mn_count`.  The map is loaded from a file, with all
identifiers' NAIs zero, or filled by the answers of the RADIUS server and, on
the LMA, by first registrations.
-/

set_option autoImplicit false

namespace OaiPmip.HnpCache

def maxMobiles : Nat := 64

def setPrefix (mnIid addr : In6Addr) : List MnidHnp → List MnidHnp
  | [] => []
  | entry :: rest =>
      if entry.mnIid = mnIid then { entry with mnPrefix := addr } :: rest
      else entry :: setPrefix mnIid addr rest

def pmipInsertIntoHnpCache (map : List MnidHnp) (mnIid addr : In6Addr) (nai : Nai) :
    List MnidHnp :=
  if map.any fun entry => entry.mnIid = mnIid then setPrefix mnIid addr map
  else if map.length < maxMobiles then map ++ [⟨addr, mnIid, nai⟩]
  else map

def lookup (map : List MnidHnp) (mnid : In6Addr) : Option MnidHnp :=
  map.find? fun entry => entry.mnIid = mnid

/-- `none` is `*result = -1`. -/
def lmaMnidHnpMap (map : List MnidHnp) (mnid : In6Addr) : Option In6Addr :=
  (lookup map mnid).map MnidHnp.mnPrefix

def mnNaiHnpMap (map : List MnidHnp) (mnid : In6Addr) : Nai :=
  match lookup map mnid with
  | some entry => entry.mnNai
  | none => Octets.zero 63

def getNodeNai (map : List MnidHnp) (mnIid : In6Addr) : Nai := mnNaiHnpMap map mnIid

/-- `memcpy` of at most 63 bytes over an identifier. -/
def overlayNai (nai : Nai) (value : List UInt8) : Nai :=
  ⟨value.take 63 ++ nai.bytes.drop (value.take 63).length, by
    have := nai.size
    simp only [List.length_append, List.length_take, List.length_drop]
    omega⟩

/-- The prefix and identifier of a reply with at least two of the three
attributes. -/
def radiusAnswer (reply : RadiusReply) (mnNai : Nai) : Option (In6Addr × Nai) :=
  let answered := reply.framedIpv6Prefix.isSome.toNat + reply.framedInterfaceId.isSome.toNat +
    reply.mobileNodeIdentifier.isSome.toNat
  if answered ≥ 2 then
    let base := reply.framedIpv6Prefix.getD reply.stack
    let pfx : In6Addr := match reply.framedInterfaceId with
      | none => base
      | some id =>
          ⟨base.bytes.take 8 ++ List.zipWith (· ||| ·) (base.bytes.drop 8) id.bytes, by
            simp [base.size, id.size]⟩
    some (pfx, (reply.mobileNodeIdentifier.map (overlayNai mnNai)).getD mnNai)
  else none

/-- The cached answer, else that of the RADIUS server, which is then cached;
`none` is `*aaa_result = -1`. -/
def mnidHnpMap (map : List MnidHnp) (radius : Option RadiusReply) (mnid : In6Addr) (mnNai : Nai) :
    List MnidHnp × Option (In6Addr × Nai) :=
  match lookup map mnid with
  | some entry => (map, some (entry.mnPrefix, entry.mnNai))
  | none =>
      match radius.bind fun reply => radiusAnswer reply mnNai with
      | some (pfx, nai) => (pmipInsertIntoHnpCache map mnid pfx nai, some (pfx, nai))
      | none => (map, none)

theorem map_of_none {map map' : List MnidHnp} {radius : Option RadiusReply} {mnid : In6Addr}
    {mnNai : Nai} (missed : mnidHnpMap map radius mnid mnNai = (map', none)) : map' = map := by
  simp only [mnidHnpMap] at missed
  split at missed
  · cases missed
  · split at missed
    · cases missed
    · cases missed
      rfl

theorem lookup_grows {map map' : List MnidHnp} {radius : Option RadiusReply} {mnid : In6Addr}
    {mnNai : Nai} {answer : Option (In6Addr × Nai)}
    (asked : mnidHnpMap map radius mnid mnNai = (map', answer)) (other : In6Addr) (known : MnidHnp)
    (found : lookup map other = some known) : lookup map' other = some known := by
  simp only [mnidHnpMap] at asked
  split at asked
  · cases asked
    exact found
  · rename_i missing
    have unknown : ¬ (map.any fun entry => entry.mnIid = mnid) = true := by
      intro present
      obtain ⟨entry, member, same⟩ := List.any_eq_true.mp present
      exact List.find?_eq_none.mp missing entry member same
    split at asked
    · cases asked
      simp only [pmipInsertIntoHnpCache]
      rw [if_neg unknown]
      split
      · rw [lookup, List.find?_append]
        simp only [lookup] at found
        rw [found]
        rfl
      · exact found
    · cases asked
      exact found

theorem lookup_setPrefix (mnIid addr : In6Addr) (map : List MnidHnp) :
    ∀ entry ∈ lookup (setPrefix mnIid addr map) mnIid, entry.mnPrefix = addr := by
  induction map with
  | nil => simp [setPrefix, lookup]
  | cons head rest ih =>
      simp only [setPrefix]
      split
      · rename_i here
        simp [lookup, here]
      · rename_i other
        simpa [lookup, other] using ih

/-- A first registration leaves the map with the registered prefix, or without
one when the map is full. -/
theorem lmaMnidHnpMap_insert (map : List MnidHnp) (mnIid addr : In6Addr) (nai : Nai) :
    ∀ pfx ∈ lmaMnidHnpMap (pmipInsertIntoHnpCache map mnIid addr nai) mnIid, pfx = addr := by
  intro pfx mapped
  obtain ⟨entry, found, rfl⟩ := Option.map_eq_some_iff.mp mapped
  simp only [pmipInsertIntoHnpCache] at found
  split at found
  · exact lookup_setPrefix mnIid addr map entry found
  · rename_i unknown
    have absent : lookup map mnIid = none := by
      apply List.find?_eq_none.mpr
      intro other member same
      exact unknown (List.any_eq_true.mpr ⟨other, member, same⟩)
    split at found
    · rw [lookup, List.find?_append] at found
      simp only [lookup] at absent
      rw [absent] at found
      simp only [Option.none_or, List.find?_cons, decide_true, Option.some.injEq] at found
      rw [← found]
    · rw [absent] at found
      cases found

end OaiPmip.HnpCache
