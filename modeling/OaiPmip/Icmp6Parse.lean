import OaiPmip.Lib.Loops
import OaiPmip.Msgs

/-!
# The packet inside an ICMPv6 error, icmp6.c

`icmp6_parse_data` follows the extension headers of the packet that an error quotes and
looks for two home addresses: the one of a home address option and the one of a type 2
routing header.  Offsets are sums of `unsigned int`; pointers are offsets in the packet.
A read behind `len` and one through a null pointer are faults, those of `dbg` included.
-/

set_option autoImplicit false

namespace OaiPmip.Icmp6

open OaiPmip.Loops OaiPmip.Msgs

inductive Fault where
  | outside
  | null
  deriving DecidableEq

structure ParseState where
  hoff : Nat
  htype : UInt8
  lhoa : Option Nat
  rhoa : Option Nat
  deriving DecidableEq

structure ParseResult where
  ret : Int
  lhoa : Option Nat
  rhoa : Option Nat
  deriving DecidableEq

def ParseState.result (s : ParseState) (ret : Int) : ParseResult := ⟨ret, s.lhoa, s.rhoa⟩

def ipprotoHopopts : UInt8 := 0

def ipprotoRouting : UInt8 := 43

def ipprotoDstopts : UInt8 := 60

def ip6optPad0 : UInt8 := 0

def ip6optHomeAddress : UInt8 := 0xc9

/-- `sizeof(struct ip6_hdr)`. -/
def sizeofIp6Hdr : Nat := 40

/-- A sum kept in an `unsigned int`. -/
def uint (n : Nat) : Nat := n % 2 ^ 32

section Parser
variable (data : Buffer) (len : UInt32)

def readByte (i : Nat) : Except Fault UInt8 :=
  if i < len.toNat then .ok (data i) else .error .outside

/-- The sixteen bytes that `NIP6ADDR` prints. -/
def readAddr : Option Nat → Except Fault Unit
  | none => .error .null
  | some p => if p + 16 ≤ len.toNat then .ok () else .error .outside

/-- The loop over the options of a header, with `fuel` turns: where the home address is. -/
def findHao (hoff hlen : Nat) : Nat → Nat → Except Fault (Option Nat)
  | 0, _ => .ok none
  | fuel + 1, ooff =>
      if ooff < hlen then do
        let opttype ← readByte data len (hoff + ooff)
        if opttype = ip6optPad0 then findHao hoff hlen fuel (ooff + 1)
        else if hlen < ooff + 2 then return none
        else
          let optlen ← readByte data len (hoff + ooff + 1)
          if hlen < ooff + 2 + optlen.toNat then return none
          else if opttype = ip6optHomeAddress ∧ optlen.toNat = 16 then
            readAddr len (some (hoff + ooff + 2))
            return some (hoff + ooff + 2)
          else findHao hoff hlen fuel (ooff + 2 + optlen.toNat)
      else return none

/-- `rth->ip6r2_type == 2 && rth->ip6r2_len == 2 && rth->ip6r2_segleft == 1`. -/
def isHomeRouting (hoff : Nat) : Except Fault Bool := do
  let type ← readByte data len (hoff + 2)
  if type ≠ 2 then return false
  else
    let length ← readByte data len (hoff + 1)
    if length ≠ 2 then return false
    else
      let segleft ← readByte data len (hoff + 3)
      return segleft = 1

def parseHeader (hlen : Nat) (s : ParseState) : Except Fault ParseState :=
  if s.htype = ipprotoDstopts then do
    let found ← findHao data len s.hoff hlen hlen 2
    return { s with lhoa := found.or s.lhoa }
  else if s.htype = ipprotoRouting then do
    let isHome ← isHomeRouting data len s.hoff
    let rhoa := if isHome then some (s.hoff + 8) else s.rhoa
    readAddr len rhoa
    return { s with rhoa := rhoa }
  else return s

def parseTurn (s : ParseState) : Except Fault (Turn ParseState ParseResult) :=
  if uint (s.hoff + 8) < len.toNat then do
    let ip6eLen ← readByte data len (s.hoff + 1)
    let hlen := (ip6eLen.toNat + 1) * 8
    if s.htype ≠ ipprotoDstopts ∧ s.htype ≠ ipprotoRouting ∧ s.htype ≠ ipprotoHopopts then
      return .done (s.result 0)
    else if len.toNat < uint (s.hoff + hlen) then return .done (s.result (-1))
    else
      let s ← parseHeader data len hlen s
      let next ← readByte data len s.hoff
      return .again { s with hoff := uint (s.hoff + hlen), htype := next }
  else return .done (s.result 0)

def icmp6ParseData (lhoa rhoa : Option Nat) (fuel : Nat) :
    Option (Except Fault ParseResult) :=
  if len.toNat < sizeofIp6Hdr then some (.ok ⟨-1, lhoa, rhoa⟩)
  else
    match readByte data len 6 with
    | .ok htype => loop (parseTurn data len) fuel ⟨sizeofIp6Hdr, htype, lhoa, rhoa⟩
    | .error fault => some (.error fault)

end Parser

/-! ## The headers of a packet -/

structure Header where
  off : Nat
  type : UInt8

section Headers
variable (data : Buffer) (len : UInt32)

def Header.size (h : Header) : Nat := ((data (h.off + 1)).toNat + 1) * 8

structure Parsed (h : Header) : Prop where
  room : h.off + 8 < len.toNat
  known : h.type = ipprotoDstopts ∨ h.type = ipprotoRouting ∨ h.type = ipprotoHopopts
  inside : h.off + h.size data ≤ len.toNat

def Header.next (h : Header) : Header := ⟨h.off + h.size data, data h.off⟩

def Header.isHome (h : Header) : Bool :=
  h.type = ipprotoRouting && data (h.off + 2) = 2 && data (h.off + 1) = 2 && data (h.off + 3) = 1

/-- The headers from the first one on; the flag says whether `*rhoa` is set in front of
one, and starts with `set`. -/
inductive Reached (set : Bool) : Header → Bool → Prop
  | first (room : sizeofIp6Hdr ≤ len.toNat) : Reached set ⟨sizeofIp6Hdr, data 6⟩ set
  | next {h : Header} {before : Bool} (reached : Reached set h before)
      (parsed : Parsed data len h) :
      Reached set (h.next data) (before || h.isHome data)

def InDstopts (set : Bool) (p : Nat) : Prop :=
  ∃ h before, Reached data len set h before ∧ Parsed data len h ∧ h.type = ipprotoDstopts ∧
    h.off + 2 ≤ p ∧ p + 16 ≤ h.off + h.size data

def InRouting (set : Bool) (p : Nat) : Prop :=
  ∃ h before, Reached data len set h before ∧ Parsed data len h ∧ h.type = ipprotoRouting ∧
    data (h.off + 2) = 2 ∧ p = h.off + 8 ∧ p + 16 ≤ h.off + h.size data

/-- Every routing header is a type 2 header with its home address or comes when `*rhoa` is
set. -/
def RoutingSet (set : Bool) : Prop :=
  ∀ h before, Reached data len set h before → Parsed data len h → h.type = ipprotoRouting →
    before = true ∨ h.isHome data = true

/-- A header so far behind that the offset of the next one is cut to 32 bits. -/
def Wraps (set : Bool) : Prop :=
  ∃ h before, Reached data len set h before ∧
    (2 ^ 32 ≤ h.off + 8 ∨ h.off + 8 < len.toNat ∧ 2 ^ 32 ≤ h.off + h.size data)

end Headers

section OneHeader
variable {data : Buffer} {len : UInt32}

theorem readByte_inside {i : Nat} (inside : i < len.toNat) :
    readByte data len i = .ok (data i) := if_pos inside

theorem uint_of_lt {n : Nat} (small : n < 2 ^ 32) : uint n = n := Nat.mod_eq_of_lt small

theorem findHao_ok {hoff hlen : Nat} (inside : hoff + hlen ≤ len.toNat) (fuel ooff : Nat)
    (behind : 2 ≤ ooff) :
    ∃ found, findHao data len hoff hlen fuel ooff = .ok found ∧
      ∀ p, found = some p → hoff + 2 ≤ p ∧ p + 16 ≤ hoff + hlen := by
  induction fuel generalizing ooff with
  | zero => exact ⟨none, rfl, fun p same => by cases same⟩
  | succ fuel ih =>
      have nothing : ∃ found, (Except.ok none : Except Fault (Option Nat)) = .ok found ∧
          ∀ p, found = some p → hoff + 2 ≤ p ∧ p + 16 ≤ hoff + hlen :=
        ⟨none, rfl, fun p same => by cases same⟩
      rw [findHao]
      split
      · rename_i before
        rw [readByte_inside (show hoff + ooff < len.toNat by omega)]
        change ∃ found, (if data (hoff + ooff) = ip6optPad0 then _ else _) = _ ∧ _
        split
        · exact ih (ooff + 1) (by omega)
        · split
          · exact nothing
          · rename_i room
            rw [readByte_inside (show hoff + ooff + 1 < len.toNat by omega)]
            change ∃ found,
              (if hlen < ooff + 2 + (data (hoff + ooff + 1)).toNat then _ else _) = _ ∧ _
            split
            · exact nothing
            · rename_i fits
              split
              · rename_i isHao
                rw [readAddr, if_pos (show hoff + ooff + 2 + 16 ≤ len.toNat by omega)]
                refine ⟨some (hoff + ooff + 2), rfl, ?_⟩
                intro p same
                cases same
                omega
              · exact ih _ (by omega)
      · exact nothing

theorem findHao_enough (data : Buffer) (len : UInt32) (hoff hlen : Nat) {fuel fuel' ooff : Nat}
    (enough : hlen - ooff ≤ fuel) (enough' : hlen - ooff ≤ fuel') :
    findHao data len hoff hlen fuel ooff = findHao data len hoff hlen fuel' ooff := by
  have behind : ∀ fuel ooff, hlen ≤ ooff → findHao data len hoff hlen fuel ooff = .ok none := by
    intro fuel ooff past
    cases fuel with
    | zero => rfl
    | succ fuel =>
        rw [findHao, if_neg (not_lt.mpr past)]
        rfl
  induction fuel generalizing fuel' ooff with
  | zero => rw [behind 0 ooff (by omega), behind fuel' ooff (by omega)]
  | succ fuel ih =>
      cases fuel' with
      | zero => rw [behind 0 ooff (by omega), behind (fuel + 1) ooff (by omega)]
      | succ fuel' =>
          by_cases before : ooff < hlen
          · rw [findHao, findHao, if_pos before, if_pos before]
            rw [@ih fuel' (ooff + 1) (by omega) (by omega)]
            congr 1
            funext opttype
            split
            · rfl
            · split
              · rfl
              · congr 1
                funext optlen
                rw [@ih fuel' (ooff + 2 + optlen.toNat) (by omega) (by omega)]
          · rw [behind _ ooff (by omega), behind _ ooff (by omega)]

theorem isHomeRouting_eq {h : Header} (parsed : Parsed data len h)
    (routing : h.type = ipprotoRouting) :
    isHomeRouting data len h.off = .ok (h.isHome data) := by
  have room := parsed.room
  rw [isHomeRouting, readByte_inside (show h.off + 2 < len.toNat by omega),
    readByte_inside (show h.off + 1 < len.toNat by omega),
    readByte_inside (show h.off + 3 < len.toNat by omega)]
  by_cases type : data (h.off + 2) = 2
  · by_cases length : data (h.off + 1) = 2
    · simp [Header.isHome, routing, type, length, bind, Except.bind, pure, Except.pure]
    · simp [Header.isHome, routing, type, length, bind, Except.bind, pure, Except.pure]
  · simp [Header.isHome, type, bind, Except.bind, pure, Except.pure]

theorem isHome_fits {h : Header} (isHome : h.isHome data = true) :
    h.type = ipprotoRouting ∧ data (h.off + 2) = 2 ∧ h.size data = 24 := by
  simp only [Header.isHome, Bool.and_eq_true, decide_eq_true_eq] at isHome
  obtain ⟨⟨⟨routing, type⟩, length⟩, -⟩ := isHome
  refine ⟨routing, type, ?_⟩
  rw [Header.size, length]
  rfl

end OneHeader

/-! ## The chain of headers -/

section Chain
variable {data : Buffer} {len : UInt32} {lhoa rhoa : Option Nat}

/-- A pointer is the one of the caller or one into a header of its kind. -/
structure Pointers (data : Buffer) (len : UInt32) (lhoa rhoa l r : Option Nat) : Prop where
  lhoa : ∀ p, l = some p → lhoa = some p ∨ InDstopts data len rhoa.isSome p
  rhoa : ∀ p, r = some p → rhoa = some p ∨ InRouting data len rhoa.isSome p

structure At (data : Buffer) (len : UInt32) (lhoa rhoa : Option Nat) (h : Header) (before : Bool)
    (s : ParseState) : Prop where
  reached : Reached data len rhoa.isSome h before
  hoff : s.hoff = h.off
  htype : s.htype = h.type
  flag : s.rhoa.isSome = before
  pointers : Pointers data len lhoa rhoa s.lhoa s.rhoa

/-- The caller's `*rhoa` is null or an address in the packet. -/
def CallerAddr (len : UInt32) (rhoa : Option Nat) : Prop := ∀ p, rhoa = some p → p + 16 ≤ len.toNat

theorem Pointers.readAddr {l r : Option Nat} (pointers : Pointers data len lhoa rhoa l r)
    (caller : CallerAddr len rhoa) (set : r.isSome = true) : Icmp6.readAddr len r = .ok () := by
  obtain ⟨p, rfl⟩ := Option.isSome_iff_exists.mp set
  have inside : p + 16 ≤ len.toNat := by
    rcases pointers.rhoa p rfl with isCaller | ⟨h, before, -, parsed, -, -, -, fits⟩
    · exact caller p isCaller
    · exact fits.trans parsed.inside
  exact if_pos inside

variable {h : Header} {before : Bool} {s : ParseState}

theorem parseHeader_ok (at' : At data len lhoa rhoa h before s) (parsed : Parsed data len h)
    (caller : CallerAddr len rhoa)
    (set : h.type = ipprotoRouting → before = true ∨ h.isHome data = true) :
    ∃ s', parseHeader data len (h.size data) s = .ok s' ∧ s'.hoff = s.hoff ∧
      s'.rhoa.isSome = (before || h.isHome data) ∧
      Pointers data len lhoa rhoa s'.lhoa s'.rhoa := by
  have notHome : h.type ≠ ipprotoRouting → h.isHome data = false := by
    intro other
    simp [Header.isHome, other]
  rw [parseHeader, at'.htype, at'.hoff]
  by_cases dstopts : h.type = ipprotoDstopts
  · rw [if_pos dstopts]
    obtain ⟨found, searched, inHeader⟩ := findHao_ok parsed.inside (h.size data) 2 (le_refl 2)
    rw [searched]
    refine ⟨_, rfl, rfl, ?_, ?_, at'.pointers.rhoa⟩
    · rw [notHome (by rw [dstopts]; decide), Bool.or_false]
      exact at'.flag
    · intro p same
      cases found with
      | none => exact at'.pointers.lhoa p same
      | some q =>
          obtain ⟨start, fits⟩ := inHeader p (same : some q = some p)
          exact .inr ⟨h, before, at'.reached, parsed, dstopts, start, fits⟩
  · rw [if_neg dstopts]
    by_cases routing : h.type = ipprotoRouting
    · rw [if_pos routing, isHomeRouting_eq parsed routing]
      have pointers : Pointers data len lhoa rhoa s.lhoa
          (if h.isHome data then some (h.off + 8) else s.rhoa) := by
        refine ⟨at'.pointers.lhoa, ?_⟩
        intro p same
        split at same
        · rename_i isHome
          cases same
          obtain ⟨-, type, size⟩ := isHome_fits isHome
          exact .inr ⟨h, before, at'.reached, parsed, routing, type, rfl, by omega⟩
        · exact at'.pointers.rhoa p same
      have flag : (if h.isHome data then some (h.off + 8) else s.rhoa).isSome =
          (before || h.isHome data) := by
        cases isHome : h.isHome data with
        | true => simp
        | false => simpa using at'.flag
      have read := pointers.readAddr caller (by
        rw [flag, Bool.or_eq_true]
        exact set routing)
      refine ⟨⟨h.off, h.type, s.lhoa, if h.isHome data then some (h.off + 8) else s.rhoa⟩, ?_,
        rfl, flag, pointers⟩
      change (do
        readAddr len (if h.isHome data then some (h.off + 8) else s.rhoa)
        return ParseState.mk h.off h.type s.lhoa
          (if h.isHome data then some (h.off + 8) else s.rhoa)) = _
      rw [read]
      rfl
    · rw [if_neg routing]
      refine ⟨s, rfl, at'.hoff, ?_, at'.pointers⟩
      rw [notHome routing, Bool.or_false]
      exact at'.flag

theorem turn_room (at' : At data len lhoa rhoa h before s) (room : h.off + 8 < len.toNat) :
    parseTurn data len s =
      if h.type ≠ ipprotoDstopts ∧ h.type ≠ ipprotoRouting ∧ h.type ≠ ipprotoHopopts then
        .ok (.done (s.result 0))
      else if len.toNat < uint (h.off + h.size data) then .ok (.done (s.result (-1)))
      else do
        let s ← parseHeader data len (h.size data) s
        let next ← readByte data len s.hoff
        return Turn.again { s with hoff := uint (s.hoff + h.size data), htype := next } := by
  have bound := len.toNat_lt
  rw [parseTurn, at'.hoff, at'.htype, uint_of_lt (by omega), if_pos room,
    readByte_inside (show h.off + 1 < len.toNat by omega)]
  rfl

theorem Parsed.type_known (parsed : Parsed data len h) :
    ¬(h.type ≠ ipprotoDstopts ∧ h.type ≠ ipprotoRouting ∧ h.type ≠ ipprotoHopopts) := by
  have known := parsed.known
  tauto

theorem turn_parsed (at' : At data len lhoa rhoa h before s) (parsed : Parsed data len h)
    (caller : CallerAddr len rhoa)
    (set : h.type = ipprotoRouting → before = true ∨ h.isHome data = true) :
    ∃ s', parseTurn data len s = .ok (.again s') ∧
      At data len lhoa rhoa (h.next data) (before || h.isHome data) s' := by
  have room := parsed.room
  have inside := parsed.inside
  have bound := len.toNat_lt
  obtain ⟨s', done, hoff, flag, pointers⟩ := parseHeader_ok at' parsed caller set
  rw [at'.hoff] at hoff
  refine ⟨{ s' with hoff := uint (s'.hoff + h.size data), htype := data h.off }, ?_, ?_⟩
  · rw [turn_room at' room, if_neg parsed.type_known, uint_of_lt (by omega),
      if_neg (not_lt.mpr inside), done]
    change (do
      let next ← readByte data len s'.hoff
      return Turn.again { s' with hoff := uint (s'.hoff + h.size data), htype := next }) = _
    rw [hoff, readByte_inside (by omega)]
    rfl
  · refine ⟨.next at'.reached parsed, ?_, rfl, flag, pointers⟩
    rw [hoff]
    exact uint_of_lt (by omega)

theorem turn_stops (at' : At data len lhoa rhoa h before s) (notParsed : ¬Parsed data len h)
    (noWrap : ¬Wraps data len rhoa.isSome) :
    ∃ ret, parseTurn data len s = .ok (.done (s.result ret)) := by
  have low : ¬2 ^ 32 ≤ h.off + 8 := fun high => noWrap ⟨h, before, at'.reached, .inl high⟩
  by_cases room : h.off + 8 < len.toNat
  · have ends : ¬2 ^ 32 ≤ h.off + h.size data :=
      fun high => noWrap ⟨h, before, at'.reached, .inr ⟨room, high⟩⟩
    rw [turn_room at' room, uint_of_lt (by omega)]
    split
    · exact ⟨0, rfl⟩
    · rename_i known
      split
      · exact ⟨-1, rfl⟩
      · rename_i inside
        refine absurd ⟨room, ?_, not_lt.mp inside⟩ notParsed
        tauto
  · rw [parseTurn, at'.hoff, uint_of_lt (by omega), if_neg room]
    exact ⟨0, rfl⟩

/-- A routing header without a home address is printed through `*rhoa`. -/
theorem turn_null (at' : At data len lhoa rhoa h before s) (parsed : Parsed data len h)
    (routing : h.type = ipprotoRouting) (unset : before = false) (other : h.isHome data = false) :
    parseTurn data len s = .error .null := by
  have room := parsed.room
  have inside := parsed.inside
  have bound := len.toNat_lt
  have null : s.rhoa = none := by
    apply Option.isNone_iff_eq_none.mp
    rw [← Option.isSome_eq_false_iff, at'.flag, unset]
  have fault : parseHeader data len (h.size data) s = .error .null := by
    rw [parseHeader, at'.htype, at'.hoff, routing, if_neg (by decide), if_pos rfl,
      isHomeRouting_eq parsed routing, other]
    change (do
      readAddr len s.rhoa
      return ParseState.mk _ _ _ s.rhoa) = _
    rw [null]
    rfl
  rw [turn_room at' room, if_neg parsed.type_known, uint_of_lt (by omega),
    if_neg (not_lt.mpr inside), fault]
  rfl

theorem parse_ends (caller : CallerAddr len rhoa) (set : RoutingSet data len rhoa.isSome)
    (noWrap : ¬Wraps data len rhoa.isSome) (rest : Nat) (short : len.toNat - h.off ≤ rest)
    (at' : At data len lhoa rhoa h before s) :
    ∃ result, Ends (parseTurn data len) s (.ok result) ∧
      Pointers data len lhoa rhoa result.lhoa result.rhoa := by
  induction rest generalizing h before s with
  | zero =>
      have notParsed : ¬Parsed data len h := by
        intro parsed
        have room := parsed.room
        omega
      obtain ⟨ret, turn⟩ := turn_stops at' notParsed noWrap
      exact ⟨s.result ret, (ends_done turn).mpr rfl, at'.pointers⟩
  | succ rest ih =>
      by_cases parsed : Parsed data len h
      · obtain ⟨s', turn, after⟩ := turn_parsed at' parsed caller
          (set h before at'.reached parsed)
        have further : h.off + 8 ≤ (h.next data).off := by
          simp only [Header.next, Header.size]
          omega
        obtain ⟨result, ends, pointers⟩ := ih (by omega) after
        exact ⟨result, (ends_again turn).mpr ends, pointers⟩
      · obtain ⟨ret, turn⟩ := turn_stops at' parsed noWrap
        exact ⟨s.result ret, (ends_done turn).mpr rfl, at'.pointers⟩

theorem reached_state {start : ParseState} (caller : CallerAddr len rhoa)
    (first : At data len lhoa rhoa ⟨sizeofIp6Hdr, data 6⟩ rhoa.isSome start)
    (reached : Reached data len rhoa.isSome h before) :
    Ends (parseTurn data len) start (.error .null) ∨
      ∃ s, At data len lhoa rhoa h before s ∧
        ∀ outcome, Ends (parseTurn data len) s outcome →
          Ends (parseTurn data len) start outcome := by
  induction reached with
  | first room => exact .inr ⟨start, first, fun _ ends => ends⟩
  | next reached parsed ih =>
      rename_i g flag
      rcases ih with null | ⟨s, at', back⟩
      · exact .inl null
      · by_cases set : g.type = ipprotoRouting → flag = true ∨ g.isHome data = true
        · obtain ⟨s', turn, after⟩ := turn_parsed at' parsed caller set
          exact .inr ⟨s', after, fun outcome ends => back outcome ((ends_again turn).mpr ends)⟩
        · left
          simp only [Classical.not_imp, not_or, Bool.not_eq_true] at set
          have turn := turn_null at' parsed set.1 set.2.1 set.2.2
          exact back _ ((ends_fault turn).mpr rfl)

end Chain

/-- The parser returns, reads nothing outside the packet, and leaves each pointer as it was or
at an address in a header of its kind. -/
def Safe (data : Buffer) (len : UInt32) (lhoa rhoa : Option Nat) : Prop :=
  ∃ fuel result, icmp6ParseData data len lhoa rhoa fuel = some (.ok result) ∧
    Pointers data len lhoa rhoa result.lhoa result.rhoa

section Whole
variable {data : Buffer} {len : UInt32} {lhoa rhoa : Option Nat}

theorem at_start (room : sizeofIp6Hdr ≤ len.toNat) :
    At data len lhoa rhoa ⟨sizeofIp6Hdr, data 6⟩ rhoa.isSome
      ⟨sizeofIp6Hdr, data 6, lhoa, rhoa⟩ :=
  ⟨.first room, rfl, rfl, rfl, ⟨fun _ same => .inl same, fun _ same => .inl same⟩⟩

theorem icmp6ParseData_eq (room : sizeofIp6Hdr ≤ len.toNat) (fuel : Nat) :
    icmp6ParseData data len lhoa rhoa fuel =
      loop (parseTurn data len) fuel ⟨sizeofIp6Hdr, data 6, lhoa, rhoa⟩ := by
  have inside : 6 < len.toNat := lt_of_lt_of_le (by decide) room
  rw [icmp6ParseData, if_neg (not_lt.mpr room), readByte_inside inside]

theorem safe_of_set (caller : CallerAddr len rhoa) (set : RoutingSet data len rhoa.isSome)
    (noWrap : ¬Wraps data len rhoa.isSome) : Safe data len lhoa rhoa := by
  by_cases room : sizeofIp6Hdr ≤ len.toNat
  · obtain ⟨result, ⟨fuel, ends⟩, pointers⟩ :=
      parse_ends caller set noWrap _ (le_refl _) (at_start room)
    exact ⟨fuel, result, (icmp6ParseData_eq room fuel).trans ends, pointers⟩
  · refine ⟨0, ⟨-1, lhoa, rhoa⟩, if_pos (not_le.mp room), ?_⟩
    exact ⟨fun _ same => .inl same, fun _ same => .inl same⟩

theorem set_of_safe (caller : CallerAddr len rhoa) (safe : Safe data len lhoa rhoa) :
    RoutingSet data len rhoa.isSome := by
  intro h before reached parsed routing
  by_contra unset
  simp only [not_or, Bool.not_eq_true] at unset
  have room : sizeofIp6Hdr ≤ len.toNat := by
    clear unset parsed routing safe caller
    induction reached with
    | first room => exact room
    | next _ _ ih => exact ih
  obtain ⟨fuel, result, ran, -⟩ := safe
  rw [icmp6ParseData_eq room] at ran
  have null : Ends (parseTurn data len) ⟨sizeofIp6Hdr, data 6, lhoa, rhoa⟩ (.error .null) := by
    rcases reached_state caller (at_start room) reached with null | ⟨s, at', back⟩
    · exact null
    · exact back _ ((ends_fault (turn_null at' parsed routing unset.1 unset.2)).mpr rfl)
  cases Ends.unique ⟨fuel, ran⟩ null

theorem Reached.off_le {set before : Bool} {h : Header} (reached : Reached data len set h before) :
    h.off ≤ len.toNat := by
  induction reached with
  | first room => exact room
  | next _ parsed _ => exact parsed.inside

theorem not_wraps {set : Bool} (short : len.toNat ≤ 2 ^ 32 - 2048) : ¬Wraps data len set := by
  rintro ⟨h, before, reached, high⟩
  have within := reached.off_le
  have isByte := (data (h.off + 1)).toNat_lt
  simp only [Header.size] at high
  omega

theorem Reached.set {before : Bool} {h : Header} (reached : Reached data len true h before) :
    before = true := by
  induction reached with
  | first _ => rfl
  | next _ _ ih => rw [ih, Bool.true_or]

theorem icmp6ParseData_callers (data : Buffer) {len : UInt32} (short : len.toNat ≤ 2 ^ 32 - 2048) :
    Safe data len (some 8) (some 24) := by
  by_cases room : sizeofIp6Hdr ≤ len.toNat
  · apply safe_of_set _ (fun h before reached _ _ => .inl reached.set) (not_wraps short)
    intro p same
    cases same
    exact room
  · refine ⟨0, ⟨-1, some 8, some 24⟩, if_pos (not_le.mp room), ?_⟩
    exact ⟨fun _ same => .inl same, fun _ same => .inl same⟩

end Whole

/-- With null pointers it is safe where every routing header has a home address or comes
behind one, up to the packets whose headers run past 32 bits.  The loop over the options
needs no more turns than its header has bytes. -/
theorem icmp6ParseData_safe (data : Buffer) (len : UInt32) :
    (Safe data len none none → RoutingSet data len false) ∧
    (RoutingSet data len false → ¬Wraps data len false → Safe data len none none) ∧
    (len.toNat ≤ 2 ^ 32 - 2048 → ¬Wraps data len false) ∧
    ∀ hoff hlen fuel, hlen ≤ fuel →
      findHao data len hoff hlen fuel 2 = findHao data len hoff hlen hlen 2 := by
  have caller : CallerAddr len none := fun p same => by cases same
  refine ⟨set_of_safe caller, safe_of_set caller, not_wraps, ?_⟩
  intro hoff hlen fuel enough
  exact findHao_enough data len hoff hlen (by omega) (by omega)

def routingQuote : Buffer := fun i => if i = 6 then ipprotoRouting else 0

theorem icmp6ParseData_routing_null :
    icmp6ParseData routingQuote 56 none none 1 = some (.error .null) ∧
      ¬Safe routingQuote 56 none none := by
  have fault : icmp6ParseData routingQuote 56 none none 1 = some (.error .null) := by decide
  refine ⟨fault, ?_⟩
  rintro ⟨fuel, result, ran, -⟩
  have room : sizeofIp6Hdr ≤ (56 : UInt32).toNat := by decide
  rw [icmp6ParseData_eq room] at fault ran
  cases Ends.unique ⟨1, fault⟩ ⟨fuel, ran⟩

theorem zeros_never_end (lhoa rhoa : Option Nat) (outcome : Except Fault ParseResult) :
    ¬Ends (parseTurn (fun _ => 0) (2 ^ 32 - 1 : Nat).toUInt32) ⟨sizeofIp6Hdr, 0, lhoa, rhoa⟩
      outcome := by
  have size : (2 ^ 32 - 1 : Nat).toUInt32.toNat = 2 ^ 32 - 1 := by decide
  apply @never_ends _ _ _ _ fun s : ParseState => s.htype = 0 ∧ s.hoff % 8 = 0 ∧ s.hoff < 2 ^ 32
  · rintro s ⟨hopopts, aligned, low⟩
    have cut : uint (s.hoff + 8) % 8 = 0 ∧ uint (s.hoff + 8) < 2 ^ 32 := by
      rw [uint]
      omega
    have next : uint (s.hoff + 8) < 2 ^ 32 - 1 := by omega
    have fits : ¬2 ^ 32 - 1 < uint (s.hoff + 8) := by omega
    have second : s.hoff + 1 < 2 ^ 32 - 1 := by omega
    have first : s.hoff < 2 ^ 32 - 1 := by omega
    refine ⟨{ s with hoff := uint (s.hoff + 8), htype := 0 }, ?_, rfl, cut.1, cut.2⟩
    rw [parseTurn, readByte, size, if_pos next, if_pos second]
    change (if _ then _ else if 2 ^ 32 - 1 < uint (s.hoff + 8) then _ else do
      let s ← parseHeader (fun _ => 0) (2 ^ 32 - 1 : Nat).toUInt32 8 s
      let next ← readByte (fun _ => 0) (2 ^ 32 - 1 : Nat).toUInt32 s.hoff
      return Turn.again { s with hoff := uint (s.hoff + 8), htype := next }) = _
    rw [if_neg (by simp [hopopts, ipprotoHopopts]), if_neg fits, parseHeader,
      if_neg (by simp [hopopts, ipprotoDstopts]), if_neg (by simp [hopopts, ipprotoRouting])]
    change (do
      let next ← readByte (fun _ => 0) (2 ^ 32 - 1 : Nat).toUInt32 s.hoff
      return Turn.again { s with hoff := uint (s.hoff + 8), htype := next }) = _
    rw [readByte, size, if_pos first]
    rfl
  · exact ⟨rfl, (by decide : sizeofIp6Hdr % 8 = 0), (by decide : sizeofIp6Hdr < 2 ^ 32)⟩

end OaiPmip.Icmp6
