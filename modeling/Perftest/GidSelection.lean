import Perftest.Lib.CMachine
import Perftest.Lib.LexScore

namespace Perftest

open CMachine

def GID_SCORE_ROCE_MAX : Int := 9
def GID_SCORE_GLOBAL_SCOPE : Int := 10
def GID_SCORE_ADDR_FAMILY : Int := 100

/-- How the build asks for the type of a GID: not at all, with `ibv_query_gid_type`, or with
`ibv_query_gid_ex`. -/
inductive GidTypeQuery where
  | none | queryGidType | queryGidEx
deriving DecidableEq, Repr

/-- The types in the order of preference, with their rates; the numbers are those of the enumeration
that the build declares or takes from the verbs library. -/
def GidTypeQuery.roceVersionsSorted : GidTypeQuery → List (Nat × Int)
  | none => []
  | queryGidType => [(0, 1), (1, 2)]
  | queryGidEx => [(1, 1), (2, 2)]

/-- What the device answers for an index of its GID table; an answer is missing where the query
fails. -/
structure GidEntry where
  gid : Option (Vector UInt8 16)
  gidType : Option Nat

section Gid

variable (gid : Vector UInt8 16)

/-- The word `s6_addr32[k]` in host order. -/
def s6Addr32 (k : Nat) : Nat := beValue ((gid.toList.drop (4 * k)).take 4)

/-- `ipv6_addr_v4mapped`, which takes IPv4 multicast addresses too. -/
def ipv6AddrV4mapped : Bool :=
  (s6Addr32 gid 0 ||| s6Addr32 gid 1) ||| (s6Addr32 gid 2 ^^^ 0xffff) = 0 ||
    s6Addr32 gid 0 = 0xff0e0000 && (s6Addr32 gid 1 ||| (s6Addr32 gid 2 ^^^ 0xffff)) = 0

def isGidLinkLocal (isIpv4 : Bool) : Bool :=
  if isIpv4 then gid[12] = 0xa9 && gid[13] = 0xfe
  else gid[0] = 0xfe && gid[1] &&& 0xc0 = 0x80

end Gid

def findRoceVersionRate (q : GidTypeQuery) (roceVer : Nat) : Int :=
  match q.roceVersionsSorted.find? (·.1 = roceVer) with
  | some e => e.2
  | none => -1

/-- `compute_gid_score` on what the device answers. -/
def computeGidScore (q : GidTypeQuery) (preferIpv6 : Bool) (e : GidEntry) : Int :=
  match e.gid with
  | none => -1
  | some gid =>
    if gid = Vector.replicate 16 0 then -1
    else
      let isIpv4 := ipv6AddrV4mapped gid
      let score := if (preferIpv6 && !isIpv4) || (!preferIpv6 && isIpv4) then GID_SCORE_ADDR_FAMILY
        else 0
      let score := if !isGidLinkLocal gid isIpv4 then score + GID_SCORE_GLOBAL_SCOPE else score
      if q = .none then score
      else
        let roceRate := match e.gidType with
          | some t => findRoceVersionRate q t
          | none => 0
        if 0 < roceRate then
          score + if roceRate < GID_SCORE_ROCE_MAX then roceRate else GID_SCORE_ROCE_MAX
        else score

/-- `get_best_gid_index` over a table of the port. -/
def getBestGidIndex (q : GidTypeQuery) (preferIpv6 : Bool) (table : List GidEntry) : Int :=
  (LexScore.scanMax (fun i => (table[i]?).elim (-1) (computeGidScore q preferIpv6))
    table.length).1

namespace GidEntry

variable (q : GidTypeQuery) (preferIpv6 : Bool) (e : GidEntry)

/-- The query succeeds with a GID that is not empty. -/
def Usable : Prop := ∃ gid, e.gid = some gid ∧ gid ≠ Vector.replicate 16 0

def isIpv4 : Bool := e.gid.any ipv6AddrV4mapped

def linkLocal : Bool := e.gid.any fun gid => isGidLinkLocal gid (ipv6AddrV4mapped gid)

/-- The rate of the RoCE version of the entry; zero if it has none or its type is not known. -/
def roceRate : Nat := (e.gidType.elim 0 (findRoceVersionRate q)).toNat

/-- The criteria of the choice, the most important one first: the address family is the preferred
one, the address is not link-local, the RoCE version. -/
def criteria : Lex (Bool × Lex (Bool × Nat)) :=
  toLex (preferIpv6 != e.isIpv4, toLex (!e.linkLocal, e.roceRate q))

/-- The result of the choice: no index without a usable entry, else the first index whose criteria are
the greatest of all usable entries. -/
structure BestIndex (table : List GidEntry) (r : Int) : Prop where
  none : r = -1 ↔ ∀ e ∈ table, ¬ e.Usable
  first : r ≠ -1 → ∃ i : Nat, r = i ∧ IsLeast {i | ∃ e, table[i]? = some e ∧ e.Usable ∧
    ∀ e' ∈ table, e'.Usable → e'.criteria q preferIpv6 ≤ e.criteria q preferIpv6} i

variable {q preferIpv6 e} {e' : GidEntry}

theorem findRoceVersionRate_le (q : GidTypeQuery) (t : Nat) : findRoceVersionRate q t ≤ 2 := by
  unfold findRoceVersionRate
  split
  next e he =>
    have hm := List.mem_of_find?_eq_some he
    cases q with
    | none => cases hm
    | queryGidType | queryGidEx =>
      rcases List.mem_cons.mp hm with rfl | hm
      · decide
      · rw [List.mem_singleton.mp hm]
  next => decide

theorem roceRate_le (q : GidTypeQuery) (e : GidEntry) : e.roceRate q ≤ 2 := by
  unfold roceRate
  cases e.gidType with
  | none => exact Nat.zero_le _
  | some t =>
    have := findRoceVersionRate_le q t
    rw [Option.elim_some]
    omega

/-- The rate is added as it is: unknown versions have none, and no version reaches the clamp. -/
theorem add_roceRate (q : GidTypeQuery) (e : GidEntry) (score : Int) :
    (if q = .none then score
      else
        let roceRate := match e.gidType with
          | some t => findRoceVersionRate q t
          | none => 0
        if 0 < roceRate then
          score + if roceRate < GID_SCORE_ROCE_MAX then roceRate else GID_SCORE_ROCE_MAX
        else score) = score + e.roceRate q := by
  unfold roceRate GID_SCORE_ROCE_MAX
  cases e.gidType with
  | none =>
    dsimp only [Option.elim_none]
    split <;> simp
  | some t =>
    rw [Option.elim_some]
    have hle := findRoceVersionRate_le q t
    split
    next hq =>
      subst hq
      exact (Int.add_zero score).symm
    next =>
      dsimp only
      split
      next hpos =>
        rw [if_pos (by omega)]
        omega
      next => omega

/-- The score of a usable entry is the weighted sum of its criteria. -/
theorem computeGidScore_of_usable (h : e.Usable) : computeGidScore q preferIpv6 e =
    GID_SCORE_ADDR_FAMILY * LexScore.ofBool (preferIpv6 != e.isIpv4) +
      (GID_SCORE_GLOBAL_SCOPE * LexScore.ofBool (!e.linkLocal) + e.roceRate q) := by
  obtain ⟨gid, hg, hne⟩ := h
  have hv : e.isIpv4 = ipv6AddrV4mapped gid := by rw [isIpv4, hg, Option.any_some]
  have hl : e.linkLocal = isGidLinkLocal gid (ipv6AddrV4mapped gid) := by
    rw [linkLocal, hg, Option.any_some]
  unfold computeGidScore
  rw [hg]
  dsimp only
  rw [if_neg hne, add_roceRate, hv, hl, ← Int.add_assoc]
  generalize isGidLinkLocal gid (ipv6AddrV4mapped gid) = link
  generalize ipv6AddrV4mapped gid = v4
  congr 1
  cases preferIpv6 <;> cases v4 <;> cases link <;> rfl

theorem computeGidScore_of_not_usable (h : ¬ e.Usable) : computeGidScore q preferIpv6 e = -1 := by
  unfold computeGidScore
  cases hg : e.gid with
  | none => rfl
  | some gid =>
    have hz : gid = Vector.replicate 16 0 := by
      by_contra hne
      exact h ⟨gid, hg, hne⟩
    exact if_pos hz

theorem computeGidScore_nonneg (h : e.Usable) : 0 ≤ computeGidScore q preferIpv6 e := by
  rw [computeGidScore_of_usable h]
  have := LexScore.ofBool_range (preferIpv6 != e.isIpv4)
  have := LexScore.ofBool_range (!e.linkLocal)
  unfold GID_SCORE_ADDR_FAMILY GID_SCORE_GLOBAL_SCOPE
  omega

/-- The part of the score below the address family. -/
def scopeScore (p : Lex (Bool × Nat)) : Int :=
  GID_SCORE_GLOBAL_SCOPE * LexScore.ofBool (ofLex p).1 + (ofLex p).2

theorem scopeScore_lt_iff {l l' : Bool} {r r' : Nat} (hr : r ≤ 2) (hr' : r' ≤ 2) :
    scopeScore (toLex (l, r)) < scopeScore (toLex (l', r')) ↔ toLex (l, r) < toLex (l', r') := by
  have hlt : (r : Int) < GID_SCORE_GLOBAL_SCOPE := by
    change (r : Int) < 10
    omega
  have hlt' : (r' : Int) < GID_SCORE_GLOBAL_SCOPE := by
    change (r' : Int) < 10
    omega
  exact LexScore.weigh_lt_iff (g := fun r : Nat => (r : Int)) LexScore.ofBool_strictMono
    ⟨Int.natCast_nonneg r, hlt⟩ ⟨Int.natCast_nonneg r', hlt'⟩ Int.ofNat_lt

theorem scopeScore_range (l : Bool) {r : Nat} (hr : r ≤ 2) :
    0 ≤ scopeScore (toLex (l, r)) ∧ scopeScore (toLex (l, r)) < GID_SCORE_ADDR_FAMILY := by
  have hl := LexScore.ofBool_range l
  have he : scopeScore (toLex (l, r)) = 10 * LexScore.ofBool l + r := rfl
  have hw : GID_SCORE_ADDR_FAMILY = 100 := rfl
  omega

/-- The weights dominate: the scores are ordered as the criteria. -/
theorem computeGidScore_lt_iff (h : e.Usable) (h' : e'.Usable) :
    computeGidScore q preferIpv6 e < computeGidScore q preferIpv6 e' ↔
      e.criteria q preferIpv6 < e'.criteria q preferIpv6 := by
  have hr := roceRate_le q e
  have hr' := roceRate_le q e'
  have hscope : ∀ e : GidEntry, GID_SCORE_GLOBAL_SCOPE * LexScore.ofBool (!e.linkLocal) +
      e.roceRate q = scopeScore (toLex (!e.linkLocal, e.roceRate q)) := fun _ => rfl
  rw [computeGidScore_of_usable h, computeGidScore_of_usable h', hscope, hscope, criteria, criteria]
  exact LexScore.weigh_lt_iff LexScore.ofBool_strictMono (scopeScore_range _ hr)
    (scopeScore_range _ hr') (scopeScore_lt_iff hr hr')

theorem not_usable_iff (q : GidTypeQuery) (preferIpv6 : Bool) (e : GidEntry) :
    ¬ e.Usable ↔ computeGidScore q preferIpv6 e ≤ -1 := by
  constructor
  · intro h
    exact (computeGidScore_of_not_usable h).le
  · intro hle h
    have hn : 0 ≤ computeGidScore q preferIpv6 e := computeGidScore_nonneg h
    omega

end GidEntry

/-- The choice takes the first of the best usable entries, if there is a usable one. -/
theorem getBestGidIndex_bestIndex (q : GidTypeQuery) (preferIpv6 : Bool) (table : List GidEntry) :
    GidEntry.BestIndex q preferIpv6 table (getBestGidIndex q preferIpv6 table) := by
  unfold getBestGidIndex
  generalize hs : (fun i : Nat => (table[i]?).elim (-1) (computeGidScore q preferIpv6)) = score
  have hspec := @LexScore.scanMax_spec score table.length
  have hscore : ∀ {i e}, table[i]? = some e → score i = computeGidScore q preferIpv6 e := by
    intro i e he
    rw [← hs]
    simp only [he, Option.elim_some]
  rcases hspec with ⟨he, hall⟩ | ⟨i, hi, he, hpos, hmax, hfirst⟩
  · rw [he]
    refine ⟨iff_of_true rfl fun e hm => ?_, fun h => absurd rfl h⟩
    obtain ⟨i, hie⟩ := List.getElem?_of_mem hm
    rw [GidEntry.not_usable_iff q preferIpv6, ← hscore hie]
    exact hall i (List.getElem?_eq_some_iff.mp hie).1
  · rw [he]
    have hie := List.getElem?_eq_getElem hi
    have hu : table[i].Usable := by
      by_contra hno
      have := (GidEntry.not_usable_iff q preferIpv6 table[i]).mp hno
      rw [← hscore hie] at this
      omega
    refine ⟨iff_of_false (by dsimp only; omega) ?_, fun _ => ⟨i, rfl, ⟨table[i], hie, hu, ?_⟩, ?_⟩⟩
    · exact fun hall => hall table[i] (List.getElem_mem hi) hu
    · intro e' hm hu'
      obtain ⟨j, hje⟩ := List.getElem?_of_mem hm
      rw [← not_lt, ← GidEntry.computeGidScore_lt_iff hu hu', ← hscore hie, ← hscore hje, not_lt]
      exact hmax j (List.getElem?_eq_some_iff.mp hje).1
    · rintro j ⟨e', hje, hu', hbest⟩
      by_contra hlt
      have hle := hbest table[i] (List.getElem_mem hi) hu
      rw [← not_lt, ← GidEntry.computeGidScore_lt_iff hu' hu, ← hscore hie, ← hscore hje] at hle
      exact hle (hfirst j (not_le.mp hlt))

end Perftest
