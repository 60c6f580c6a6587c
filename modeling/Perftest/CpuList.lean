import Perftest.Lib.CMachine
import Perftest.Lib.CNumeral

namespace Perftest

open CMachine CLiteral CNumeral
open CString (Text isSpace)

def CPU_SETSIZE : Int := 1024

/-- `sysconf(_SC_NPROCESSORS_CONF)`, which the C library counts in an `int`; negative on failure. -/
structure NprocsConf where
  val : Int
  lt : val < 2 ^ 31

/-- One round of the loop of `parse_cpu_list` up to its separator: the range that is set, and the
text behind it. -/
def cpuRange (numCpus : NprocsConf) (p : Text) : Option (Int × Int × Text) :=
  let (start, endptr) := strtol 10 p
  if endptr = p ∨ start < 0 then none
  else match endptr with
    | 45 :: endptr =>
      let (stop, endptr) := strtol 10 endptr
      if stop < 0 then none
      else if stop < start then none
      else if numCpus.val ≤ stop then none
      else some (start, stop, endptr)
    | _ => if numCpus.val ≤ start then none else some (start, start, endptr)

theorem cpuRange_length {numCpus : NprocsConf} {p : Text} {r : Int × Int × Text}
    (h : cpuRange numCpus p = some r) : r.2.2.length < p.length := by
  unfold cpuRange at h
  dsimp only at h
  split at h
  next => cases h
  next hp =>
    have hlt := strtol_length_lt fun he => hp (.inl he)
    generalize (strtol 10 p).2 = e at h hlt
    split at h
    next t =>
      have hle := strtol_length_le 10 t
      rw [List.length_cons] at hlt
      split at h
      next => cases h
      next =>
      split at h
      next => cases h
      next =>
      split at h
      next => cases h
      next =>
        obtain rfl := Option.some.inj h
        change (strtol 10 t).2.length < p.length
        omega
    next =>
      split at h
      next => cases h
      next =>
        obtain rfl := Option.some.inj h
        exact hlt

/-- The loop: whether it comes to the end of the text, and the ranges that it sets. -/
def parseCpuLoop (numCpus : NprocsConf) (p : Text) : Bool × List (Int × Int) :=
  if p = [] then (true, [])
  else match _h : cpuRange numCpus p with
    | none => (false, [])
    | some (start, stop, []) => (true, [(start, stop)])
    | some (start, stop, b :: endptr) =>
      if b = 44 then
        let (ok, ranges) := parseCpuLoop numCpus endptr
        (ok, (start, stop) :: ranges)
      else (false, [(start, stop)])
termination_by p.length
decreasing_by
  have hl := cpuRange_length _h
  simp only [List.length_cons] at hl
  omega

/-- The arguments of `CPU_SET` for a range. -/
def cpuSetCalls (r : Int × Int) : List Int :=
  (List.range (r.2 + 1 - r.1).toNat).map fun i : Nat => longToInt (r.1 + i)

structure CpuListResult where
  ok : Bool
  calls : List Int

def parseCpuList (numCpus : NprocsConf) (cpuStr : Text) : CpuListResult :=
  if numCpus.val < 0 then ⟨false, []⟩
  else
    let (ok, ranges) := parseCpuLoop numCpus cpuStr
    let calls := ranges.flatMap cpuSetCalls
    ⟨ok && decide (calls.length ≠ 0), calls⟩

/-- `n` or `n-m` in decimal. -/
inductive CpuItem (numCpus : NprocsConf) : Text → Nat → Nat → Prop
  | single {ds : Text} (hne : ds ≠ []) (hds : ∀ b ∈ ds, isDigitOf 10 b = true)
      (h : (valueOf 10 ds : Int) < numCpus.val) :
      CpuItem numCpus ds (valueOf 10 ds) (valueOf 10 ds)
  | range {ds es : Text} (hne : ds ≠ []) (hds : ∀ b ∈ ds, isDigitOf 10 b = true)
      (hne' : es ≠ []) (hes : ∀ b ∈ es, isDigitOf 10 b = true)
      (hle : valueOf 10 ds ≤ valueOf 10 es) (h : (valueOf 10 es : Int) < numCpus.val) :
      CpuItem numCpus (ds ++ 45 :: es) (valueOf 10 ds) (valueOf 10 es)

/-- Items with single commas between them, and the ranges that they stand for. -/
inductive CpuGrammar (numCpus : NprocsConf) : Text → List (Nat × Nat) → Prop
  | item {t : Text} {n m : Nat} (h : CpuItem numCpus t n m) : CpuGrammar numCpus t [(n, m)]
  | cons {t rest : Text} {n m : Nat} {rs : List (Nat × Nat)} (h : CpuItem numCpus t n m)
      (hr : CpuGrammar numCpus rest rs) : CpuGrammar numCpus (t ++ 44 :: rest) ((n, m) :: rs)

/-- Blanks, a sign and digits at the front of a text; behind a minus sign the digits are zeros. -/
def Reads (s : Text) (n : Nat) (rest : Text) : Prop :=
  ∃ blanks sign ds, Numeral 10 blanks sign [] ds ∧ Ends 10 rest ∧
    s = blanks ++ (sign ++ (ds ++ rest)) ∧ (sign = [45] → valueOf 10 ds = 0) ∧ n = valueOf 10 ds

/-- An item with blanks and signs in its numbers, and with nothing behind the hyphen for `0-0`. -/
inductive LooseItem (numCpus : NprocsConf) : Text → Nat → Nat → Text → Prop
  | single {s rest : Text} {n : Nat} (h : Reads s n rest) (hr : rest.head? ≠ some 45)
      (hn : (n : Int) < numCpus.val) : LooseItem numCpus s n n rest
  | range {s t rest : Text} {n m : Nat} (h : Reads s n (45 :: t)) (hm : Reads t m rest)
      (hle : n ≤ m) (hn : (m : Int) < numCpus.val) : LooseItem numCpus s n m rest
  | openRange {s t : Text} (h : Reads s 0 (45 :: t)) (hno : scan 10 t = none)
      (hn : 0 < numCpus.val) : LooseItem numCpus s 0 0 t

/-- Loose items with commas between them at the front of a text. -/
inductive LooseItems (numCpus : NprocsConf) : Text → List (Nat × Nat) → Text → Prop
  | item {s rest : Text} {n m : Nat} (h : LooseItem numCpus s n m rest) :
      LooseItems numCpus s [(n, m)] rest
  | cons {s t rest : Text} {n m : Nat} {rs : List (Nat × Nat)}
      (h : LooseItem numCpus s n m (44 :: t)) (hr : LooseItems numCpus t rs rest) :
      LooseItems numCpus s ((n, m) :: rs) rest

/-- A text of loose items, with a comma behind the last one or without. -/
def LooseCpuList (numCpus : NprocsConf) (s : Text) : Prop :=
  ∃ rs, LooseItems numCpus s rs [] ∨ LooseItems numCpus s rs [44]

/-- What a parser of CPU lists does with a text. -/
structure ParsesCpuList (numCpus : NprocsConf) (s : Text) : Prop where
  accepts : (parseCpuList numCpus s).ok = true ↔ ∃ rs, CpuGrammar numCpus s rs
  union : ∀ rs, CpuGrammar numCpus s rs →
    ∀ c : Int, c ∈ (parseCpuList numCpus s).calls ↔ ∃ r ∈ rs, (r.1 : Int) ≤ c ∧ c ≤ r.2
  inBounds : ∀ c ∈ (parseCpuList numCpus s).calls, 0 ≤ c ∧ c < CPU_SETSIZE

section Item

variable {numCpus : NprocsConf} {s t rest : Text} {n m : Nat}

theorem Reads.strtol (h : Reads s n rest) :
    strtol 10 s = (min (n : Int) (2 ^ 63 - 1), rest) ∧ rest ≠ s := by
  obtain ⟨blanks, sign, ds, hn, hr, rfl, hz, rfl⟩ := h
  have hs := strtol_numeral hn hr
  rw [List.nil_append] at hs
  refine ⟨?_, ?_⟩
  · rw [hs]
    congr 1
    unfold clampLong signedValue
    split
    next hm =>
      rw [hz hm]
      rfl
    next => omega
  · intro he
    have hpos := List.length_pos_of_ne_nil hn.ne
    have hl := congrArg List.length he
    simp only [List.length_append] at hl
    omega

/-- A number that is not below zero. -/
theorem reads_of_scan {sign : Text} {v : Nat} (hs : scan 10 s = some (sign, v, rest))
    (hpos : 0 ≤ clampLong (signedValue sign v)) : Reads s v rest := by
  obtain ⟨blanks, mark, ds, hn, rfl, rfl, hr⟩ := scan_spec hs
  obtain rfl : mark = [] := hn.mark.resolve_right fun h => absurd h.1 (by decide)
  refine ⟨blanks, sign, ds, hn, fun b hb => ⟨hr b hb, fun h => absurd h (by decide)⟩, rfl, ?_, rfl⟩
  intro hm
  rw [clampLong, signedValue, if_pos hm] at hpos
  omega

/-- Both outcomes of a conversion to a value that is not below zero. -/
theorem strtol_cases (s : Text) : (scan 10 s = none ∧ strtol 10 s = (0, s)) ∨
    (strtol 10 s).1 < 0 ∨ ∃ n, Reads s n (strtol 10 s).2 := by
  cases hs : scan 10 s with
  | none =>
    refine .inl ⟨rfl, ?_⟩
    rw [strtol, hs]
  | some p =>
    obtain ⟨sign, v, rest⟩ := p
    have he : strtol 10 s = (clampLong (signedValue sign v), rest) := by
      rw [strtol, hs]
    rw [he]
    by_cases hpos : 0 ≤ clampLong (signedValue sign v)
    · exact .inr (.inr ⟨v, reads_of_scan hs hpos⟩)
    · exact .inr (.inl (not_le.mp hpos))

theorem cpuRange_looseItem (h : LooseItem numCpus s n m rest) :
    cpuRange numCpus s = some ((n : Int), (m : Int), rest) := by
  have hlt := numCpus.lt
  cases h with
  | single h hr hn =>
    obtain ⟨hs, hne⟩ := h.strtol
    have hmin : min (n : Int) (2 ^ 63 - 1) = n := by omega
    rw [hmin] at hs
    simp only [cpuRange, hs, hne, false_or]
    rw [if_neg (by omega)]
    split
    next t => exact absurd rfl hr
    next => rw [if_neg (by omega)]
  | range h hm hle hn =>
    obtain ⟨hs, hne⟩ := h.strtol
    obtain ⟨ht, -⟩ := hm.strtol
    have hmin : min (n : Int) (2 ^ 63 - 1) = n := by omega
    have hmin' : min (m : Int) (2 ^ 63 - 1) = m := by omega
    rw [hmin] at hs
    rw [hmin'] at ht
    simp only [cpuRange, hs, hne, false_or, ht]
    rw [if_neg (by omega), if_neg (by omega), if_neg (by omega), if_neg (by omega)]
  | openRange h hno hn =>
    obtain ⟨hs, hne⟩ := h.strtol
    have ht : strtol 10 rest = (0, rest) := by
      rw [strtol, hno]
    have hmin : min ((0 : Nat) : Int) (2 ^ 63 - 1) = 0 := by omega
    rw [hmin] at hs
    simp only [cpuRange, hs, hne, false_or, ht]
    rw [if_neg (by omega), if_neg (by omega), if_neg (by omega), if_neg (by omega)]
    rfl

theorem looseItem_of_cpuRange {lo hi : Int} (h : cpuRange numCpus s = some (lo, hi, rest)) :
    ∃ n m : Nat, lo = n ∧ hi = m ∧ LooseItem numCpus s n m rest := by
  have hlt := numCpus.lt
  unfold cpuRange at h
  dsimp only at h
  split at h
  next => cases h
  next hp =>
    push Not at hp
    obtain ⟨hne, hpos⟩ := hp
    obtain ⟨n, hn⟩ : ∃ n, Reads s n (strtol 10 s).2 := by
      rcases strtol_cases s with ⟨-, he⟩ | hneg | hr
      · rw [he] at hne
        exact absurd rfl hne
      · omega
      · exact hr
    obtain ⟨hs, -⟩ := hn.strtol
    generalize (strtol 10 s).2 = e at h hs hn
    rw [hs] at h
    dsimp only at h
    split at h
    next t =>
      split at h
      next => cases h
      next hstop =>
      split at h
      next => cases h
      next hle =>
      split at h
      next => cases h
      next hnum =>
        obtain ⟨rfl, hp⟩ := Prod.mk.inj (Option.some.inj h)
        obtain ⟨rfl, rfl⟩ := Prod.mk.inj hp
        rcases strtol_cases t with ⟨hno, he⟩ | hneg | ⟨m, hm⟩
        · rw [he] at hle hnum ⊢
          dsimp only at hle hnum
          obtain rfl : n = 0 := by omega
          exact ⟨0, 0, rfl, rfl, .openRange hn hno (by omega)⟩
        · omega
        · obtain ⟨ht, -⟩ := hm.strtol
          have hm1 := congrArg Prod.fst ht
          dsimp only at hm1
          exact ⟨n, m, by omega, by omega, .range hn hm (by omega) (by omega)⟩
    next hhead =>
      split at h
      next => cases h
      next hnum =>
        obtain ⟨rfl, hp⟩ := Prod.mk.inj (Option.some.inj h)
        obtain ⟨rfl, rfl⟩ := Prod.mk.inj hp
        refine ⟨n, n, by omega, by omega, .single hn ?_ (by omega)⟩
        intro hh
        obtain ⟨t, rfl⟩ := List.head?_eq_some_iff.mp hh
        exact hhead t rfl

/-- A round of the loop takes the items of the loose grammar. -/
theorem cpuRange_eq_some {lo hi : Int} : cpuRange numCpus s = some (lo, hi, rest) ↔
    ∃ n m : Nat, lo = n ∧ hi = m ∧ LooseItem numCpus s n m rest := by
  constructor
  · exact looseItem_of_cpuRange
  · rintro ⟨n, m, rfl, rfl, h⟩
    exact cpuRange_looseItem h

theorem ends_of_head {b : UInt8} (h : isDigitOf 10 b = false) : Ends 10 (b :: t) := by
  intro c hc
  obtain rfl := Option.some.inj hc
  exact ⟨h, fun he => absurd he (by decide)⟩

theorem reads_digits {ds : Text} (hne : ds ≠ []) (hds : ∀ b ∈ ds, isDigitOf 10 b = true)
    (hr : Ends 10 rest) : Reads (ds ++ rest) (valueOf 10 ds) rest := by
  refine ⟨[], [], ds, ⟨?_, .inl rfl, .inl rfl, hne, hds⟩, hr, rfl, ?_, rfl⟩
  · intro b hb
    cases hb
  · intro h
    cases h

/-- The items of the grammar are loose items. -/
theorem CpuItem.loose (h : CpuItem numCpus t n m) (hr : Ends 10 rest)
    (hm : rest.head? ≠ some 45) : LooseItem numCpus (t ++ rest) n m rest := by
  cases h with
  | single hne hds hn => exact .single (reads_digits hne hds hr) hm hn
  | range hne hds hne' hes hle hn =>
    rw [List.append_assoc]
    exact .range (reads_digits hne hds (ends_of_head (by decide))) (reads_digits hne' hes hr) hle hn

theorem LooseItem.le (h : LooseItem numCpus s n m rest) : n ≤ m ∧ (m : Int) < numCpus.val := by
  cases h with
  | single h hr hn => exact ⟨le_rfl, hn⟩
  | range h hm hle hn => exact ⟨hle, hn⟩
  | openRange h hno hn => exact ⟨le_rfl, hn⟩

end Item

def castRange (r : Nat × Nat) : Int × Int := (r.1, r.2)

section Loop

variable {numCpus : NprocsConf} {s t rest : Text} {n m : Nat} {rs : List (Nat × Nat)}

theorem parseCpuLoop_nil (numCpus : NprocsConf) : parseCpuLoop numCpus [] = (true, []) := by
  rw [parseCpuLoop, if_pos rfl]

theorem LooseItem.ne_nil (h : LooseItem numCpus s n m rest) : s ≠ [] := by
  rintro rfl
  have hl := cpuRange_length (cpuRange_looseItem h)
  exact absurd hl (Nat.not_lt_zero _)

theorem parseCpuLoop_last (h : LooseItem numCpus s n m []) :
    parseCpuLoop numCpus s = (true, [castRange (n, m)]) := by
  rw [parseCpuLoop, if_neg h.ne_nil, cpuRange_looseItem h]
  rfl

theorem parseCpuLoop_comma (h : LooseItem numCpus s n m (44 :: t)) : parseCpuLoop numCpus s =
    ((parseCpuLoop numCpus t).1, castRange (n, m) :: (parseCpuLoop numCpus t).2) := by
  rw [parseCpuLoop, if_neg h.ne_nil, cpuRange_looseItem h]
  exact if_pos rfl

theorem parseCpuLoop_other {b : UInt8} (h : LooseItem numCpus s n m (b :: t)) (hb : b ≠ 44) :
    parseCpuLoop numCpus s = (false, [castRange (n, m)]) := by
  rw [parseCpuLoop, if_neg h.ne_nil, cpuRange_looseItem h]
  exact if_neg hb

theorem parseCpuLoop_stop (hs : s ≠ []) (h : ∀ n m rest, ¬ LooseItem numCpus s n m rest) :
    parseCpuLoop numCpus s = (false, []) := by
  have hnone : cpuRange numCpus s = none := by
    cases hc : cpuRange numCpus s with
    | none => rfl
    | some r =>
      obtain ⟨lo, hi, rest⟩ := r
      obtain ⟨n, m, -, -, hl⟩ := cpuRange_eq_some.mp hc
      exact absurd hl (h n m rest)
  rw [parseCpuLoop, if_neg hs, hnone]

/-- What the loop sets is read from the front of the text, to its end when the loop gets there. -/
theorem parseCpuLoop_sound (numCpus : NprocsConf) (s : Text) :
    (parseCpuLoop numCpus s).2 = [] ∧ ((parseCpuLoop numCpus s).1 = true → s = []) ∨
      ∃ rs rest, LooseItems numCpus s rs rest ∧
        (parseCpuLoop numCpus s).2 = rs.map castRange ∧
        ((parseCpuLoop numCpus s).1 = true → rest = [] ∨ rest = [44]) := by
  induction hl : s.length using Nat.strong_induction_on generalizing s with
  | _ l ih =>
    by_cases hs : s = []
    · subst hs
      rw [parseCpuLoop_nil]
      exact .inl ⟨rfl, fun _ => rfl⟩
    by_cases hitem : ∃ n m rest, LooseItem numCpus s n m rest
    · obtain ⟨n, m, rest, h⟩ := hitem
      refine .inr ?_
      cases rest with
      | nil =>
        rw [parseCpuLoop_last h]
        exact ⟨[(n, m)], [], .item h, rfl, fun _ => .inl rfl⟩
      | cons b t =>
        by_cases hb : b = 44
        · subst hb
          have hlen := cpuRange_length (cpuRange_looseItem h)
          simp only [List.length_cons] at hlen
          rw [parseCpuLoop_comma h]
          rcases ih t.length (by omega) t rfl with ⟨hnil, hend⟩ | ⟨rs, rest, hrs, hmap, hend⟩
          · refine ⟨[(n, m)], 44 :: t, .item h, ?_, fun hok => .inr ?_⟩
            · rw [hnil]
              rfl
            · rw [hend hok]
          · refine ⟨(n, m) :: rs, rest, .cons h hrs, ?_, hend⟩
            rw [hmap]
            rfl
        · rw [parseCpuLoop_other h hb]
          exact ⟨[(n, m)], b :: t, .item h, rfl, fun hok => absurd hok Bool.false_ne_true⟩
    · push Not at hitem
      rw [parseCpuLoop_stop hs hitem]
      exact .inl ⟨rfl, fun hok => absurd hok (by decide)⟩

/-- Loose items at the front are all set. -/
theorem LooseItems.ranges (h : LooseItems numCpus s rs rest) :
    ∃ more, (parseCpuLoop numCpus s).2 = rs.map castRange ++ more := by
  induction h with
  | @item s rest n m h =>
    cases rest with
    | nil => exact ⟨[], by rw [parseCpuLoop_last h]; rfl⟩
    | cons b t =>
      by_cases hb : b = 44
      · subst hb
        exact ⟨_, by rw [parseCpuLoop_comma h]; rfl⟩
      · exact ⟨[], by rw [parseCpuLoop_other h hb]; rfl⟩
  | cons h hr ih =>
    obtain ⟨more, hm⟩ := ih
    refine ⟨more, ?_⟩
    rw [parseCpuLoop_comma h, hm]
    rfl

/-- A list of loose items is taken to its end. -/
theorem LooseItems.complete (h : LooseItems numCpus s rs rest) (hr : rest = [] ∨ rest = [44]) :
    parseCpuLoop numCpus s = (true, rs.map castRange) := by
  induction h with
  | item h =>
    rcases hr with rfl | rfl
    · exact parseCpuLoop_last h
    · rw [parseCpuLoop_comma h, parseCpuLoop_nil]
      rfl
  | cons h hrest ih =>
    rw [parseCpuLoop_comma h, ih hr]
    rfl

theorem LooseItems.le (h : LooseItems numCpus s rs rest) :
    rs ≠ [] ∧ ∀ r ∈ rs, r.1 ≤ r.2 ∧ (r.2 : Int) < numCpus.val := by
  induction h with
  | item h => exact ⟨List.cons_ne_nil _ _, List.forall_mem_singleton.mpr h.le⟩
  | cons h hr ih => exact ⟨List.cons_ne_nil _ _, List.forall_mem_cons.mpr ⟨h.le, ih.2⟩⟩

theorem mem_cpuSetCalls {r : Nat × Nat} (h : (r.2 : Int) < 2 ^ 31) {c : Int} :
    c ∈ cpuSetCalls (castRange r) ↔ (r.1 : Int) ≤ c ∧ c ≤ r.2 := by
  have hcast : ∀ i ∈ List.range ((castRange r).2 + 1 - (castRange r).1).toNat,
      longToInt ((castRange r).1 + i) = r.1 + i := by
    intro i hi
    rw [List.mem_range] at hi
    dsimp only [castRange] at hi ⊢
    exact longToInt_of_range (by omega) (by omega)
  rw [cpuSetCalls, List.map_congr_left hcast, List.mem_map]
  constructor
  · rintro ⟨i, hi, rfl⟩
    rw [List.mem_range] at hi
    dsimp only [castRange] at hi
    omega
  · rintro ⟨hlo, hhi⟩
    refine ⟨(c - r.1).toNat, ?_, by omega⟩
    rw [List.mem_range]
    dsimp only [castRange]
    omega

theorem mem_calls (h : ∀ r ∈ rs, (r.2 : Int) < 2 ^ 31) {c : Int} :
    c ∈ (rs.map castRange).flatMap cpuSetCalls ↔ ∃ r ∈ rs, (r.1 : Int) ≤ c ∧ c ≤ r.2 := by
  rw [List.mem_flatMap]
  constructor
  · rintro ⟨q, hq, hc⟩
    obtain ⟨r, hr, rfl⟩ := List.mem_map.mp hq
    exact ⟨r, hr, (mem_cpuSetCalls (h r hr)).mp hc⟩
  · rintro ⟨r, hr, hc⟩
    exact ⟨castRange r, List.mem_map_of_mem hr, (mem_cpuSetCalls (h r hr)).mpr hc⟩

end Loop

section Grammar

variable {numCpus : NprocsConf} {s rest : Text} {n m : Nat} {rs : List (Nat × Nat)}

theorem CpuGrammar.loose (h : CpuGrammar numCpus s rs) : LooseItems numCpus s rs [] := by
  induction h with
  | @item t n m h =>
    have hl := h.loose (ends_nil 10) (by simp)
    rw [List.append_nil] at hl
    exact .item hl
  | cons h hr ih =>
    exact .cons (h.loose (ends_of_head (by decide)) (by simp)) ih

theorem LooseItems.numCpus_nonneg (h : LooseItems numCpus s rs rest) : ¬ numCpus.val < 0 := by
  obtain ⟨hne, hle⟩ := h.le
  obtain ⟨r, rs, rfl⟩ := List.exists_cons_of_ne_nil hne
  have hr := (hle r List.mem_cons_self).2
  omega

/-- A list that is read to its end succeeds with its ranges. -/
theorem parseCpuList_complete (h : LooseItems numCpus s rs rest) (hr : rest = [] ∨ rest = [44]) :
    parseCpuList numCpus s = ⟨true, (rs.map castRange).flatMap cpuSetCalls⟩ := by
  obtain ⟨hne, hle⟩ := h.le
  have hcalls : ((rs.map castRange).flatMap cpuSetCalls).length ≠ 0 := by
    obtain ⟨r, rs, rfl⟩ := List.exists_cons_of_ne_nil hne
    have hmem : (r.1 : Int) ∈ ((r :: rs).map castRange).flatMap cpuSetCalls := by
      have hlt := numCpus.lt
      refine (mem_calls fun q hq => ?_).mpr ⟨r, List.mem_cons_self, le_rfl, ?_⟩
      · have hq := (hle q hq).2
        omega
      · have hq := (hle r List.mem_cons_self).1
        omega
    exact List.length_pos_iff.mpr (List.ne_nil_of_mem hmem) |>.ne'
  rw [parseCpuList, if_neg h.numCpus_nonneg, h.complete hr]
  simp only [hcalls, ne_eq, not_false_eq_true, decide_true, Bool.and_true]

/-- Success comes only from a loose list. -/
theorem looseCpuList_of_ok (h : (parseCpuList numCpus s).ok = true) : LooseCpuList numCpus s := by
  unfold parseCpuList at h
  split at h
  next => cases h
  next =>
    obtain ⟨hok, hcount⟩ := Bool.and_eq_true_iff.mp h
    rcases parseCpuLoop_sound numCpus s with ⟨hnil, -⟩ | ⟨rs, rest, hrs, -, hend⟩
    · rw [hnil] at hcount
      cases hcount
    · rcases hend hok with rfl | rfl
      · exact ⟨rs, .inl hrs⟩
      · exact ⟨rs, .inr hrs⟩

theorem parseCpuList_ok_iff : (parseCpuList numCpus s).ok = true ↔ LooseCpuList numCpus s := by
  constructor
  · exact looseCpuList_of_ok
  · rintro ⟨rs, h | h⟩
    · rw [parseCpuList_complete h (.inl rfl)]
    · rw [parseCpuList_complete h (.inr rfl)]

/-- The indices that are set are those of the loose items at the front, whatever follows. -/
theorem mem_parseCpuList_calls {c : Int} : c ∈ (parseCpuList numCpus s).calls ↔
    ∃ rs rest, LooseItems numCpus s rs rest ∧ ∃ r ∈ rs, (r.1 : Int) ≤ c ∧ c ≤ r.2 := by
  have hlt := numCpus.lt
  have hbound : ∀ {rs : List (Nat × Nat)} {rest : Text}, LooseItems numCpus s rs rest →
      ∀ r ∈ rs, (r.2 : Int) < 2 ^ 31 := by
    intro rs rest h r hr
    have hq := (h.le.2 r hr).2
    omega
  constructor
  · intro h
    unfold parseCpuList at h
    split at h
    next => cases h
    next =>
      dsimp only at h
      rcases parseCpuLoop_sound numCpus s with ⟨hnil, -⟩ | ⟨rs, rest, hrs, hmap, -⟩
      · rw [hnil] at h
        cases h
      · rw [hmap] at h
        exact ⟨rs, rest, hrs, (mem_calls (hbound hrs)).mp h⟩
  · rintro ⟨rs, rest, h, hr⟩
    obtain ⟨more, hm⟩ := h.ranges
    rw [parseCpuList, if_neg h.numCpus_nonneg]
    dsimp only
    rw [hm, List.flatMap_append]
    exact List.mem_append_left _ ((mem_calls (hbound h)).mpr hr)

/-- The texts for which the parser does what it is for: loose lists of no other form, and no item in
front of the first error that goes past the set. -/
theorem parseCpuList_parses_iff (numCpus : NprocsConf) (s : Text) :
    ParsesCpuList numCpus s ↔
      (LooseCpuList numCpus s → ∃ rs, CpuGrammar numCpus s rs) ∧
        ∀ rs rest, LooseItems numCpus s rs rest → ∀ r ∈ rs, (r.2 : Int) < CPU_SETSIZE := by
  constructor
  · intro h
    refine ⟨fun hl => h.accepts.mp (parseCpuList_ok_iff.mpr hl), ?_⟩
    intro rs rest hrs r hr
    have hle := (hrs.le.2 r hr).1
    exact (h.inBounds r.2 (mem_parseCpuList_calls.mpr ⟨rs, rest, hrs, r, hr, by omega, le_rfl⟩)).2
  · rintro ⟨hstrict, hsize⟩
    refine ⟨?_, ?_, ?_⟩
    · rw [parseCpuList_ok_iff]
      constructor
      · exact hstrict
      · rintro ⟨rs, h⟩
        exact ⟨rs, .inl h.loose⟩
    · intro rs h c
      have hlt := numCpus.lt
      rw [parseCpuList_complete h.loose (.inl rfl)]
      apply mem_calls
      intro r hr
      have hq := (h.loose.le.2 r hr).2
      omega
    · intro c hc
      obtain ⟨rs, rest, hrs, r, hr, hlo, hhi⟩ := mem_parseCpuList_calls.mp hc
      have hq := hsize rs rest hrs r hr
      omega

/-- A text of the grammar ends with a digit. -/
theorem CpuGrammar.ends_digit (h : CpuGrammar numCpus s rs) :
    ∃ t d, s = t ++ [d] ∧ isDigitOf 10 d = true := by
  induction h with
  | @item t n m h =>
    cases h with
    | single hne hds hn =>
      exact ⟨t.dropLast, t.getLast hne, (List.dropLast_append_getLast hne).symm,
        hds _ (List.getLast_mem hne)⟩
    | @range ds es hne hds hne' hes hle hn =>
      refine ⟨ds ++ 45 :: es.dropLast, es.getLast hne', ?_, hes _ (List.getLast_mem hne')⟩
      rw [List.append_assoc, List.cons_append, List.dropLast_append_getLast]
  | @cons t rest n m rs h hr ih =>
    obtain ⟨u, d, rfl, hd⟩ := ih
    exact ⟨t ++ 44 :: u, d, by rw [List.append_assoc, List.cons_append], hd⟩

/-- The text `"0-"`. -/
def openRangeText : Text := [48, 45]

def fourCpus : NprocsConf := ⟨4, by norm_num⟩

theorem openRangeText_loose : LooseCpuList fourCpus openRangeText := by
  have hr : Reads openRangeText 0 [45] := @reads_digits [45] [48] (List.cons_ne_nil _ _)
    (List.forall_mem_singleton.mpr rfl) (ends_of_head (by decide))
  exact ⟨[(0, 0)], .inl (.item (.openRange hr (by decide) (by decide)))⟩

theorem openRangeText_accepted : ¬ ParsesCpuList fourCpus openRangeText := by
  intro h
  obtain ⟨rs, hrs⟩ := h.accepts.mp (parseCpuList_ok_iff.mpr openRangeText_loose)
  obtain ⟨t, d, ht, hd⟩ := hrs.ends_digit
  have hd45 : openRangeText.getLast? = some d := by
    rw [ht, List.getLast?_append, List.getLast?_singleton]
    rfl
  obtain rfl : 45 = d := Option.some.inj hd45
  exact absurd hd (by decide)

end Grammar

end Perftest
