import Perftest.LongOptions

namespace Perftest

open GetOpt

/-- The slot of `duplicates_checker` that the check reads for a return of `getopt_long`. -/
def duplicateSlot (r : Ret) : Int := if r.c = 0 then r.index else charIndex r.c

def isDuplicate (duplicatesChecker : Int → Nat) (r : Ret) : Bool :=
  if r.c = 0 then duplicatesChecker r.index ≠ 0
  else duplicatesChecker (charIndex r.c) ≠ 0 && r.c ≠ unknown.c

def countOption (duplicatesChecker : Int → Nat) (r : Ret) : Int → Nat :=
  Function.update duplicatesChecker (duplicateSlot r) (duplicatesChecker (duplicateSlot r) + 1)

/-- How the loop of `parser` ends: with the command line, at a duplicate, or at a return of the
switch. -/
inductive ParserEnd (σ : Type) where
  | parsed (s : σ)
  | duplicated
  | stopped

/-- The loop over the returns of `getopt_long`, with the slots that it reads and writes. The cases of
the switch are `handle`; its default case is that of the return for an error. -/
def parserLoop {σ : Type} (handle : σ → Ret → Option σ) :
    List Ret → σ → (Int → Nat) → ParserEnd σ × List Int
  | [], s, _ => (.parsed s, [])
  | r :: rest, s, duplicatesChecker =>
    if isDuplicate duplicatesChecker r then (.duplicated, [duplicateSlot r])
    else
      match if r.c = unknown.c then none else handle s r with
      | none => (.stopped, [duplicateSlot r, duplicateSlot r])
      | some s =>
        let (e, slots) := parserLoop handle rest s (countOption duplicatesChecker r)
        (e, duplicateSlot r :: duplicateSlot r :: slots)

/-- The length of `long_options` with its empty last entry. -/
def sizeLongOptions (b : OptionBuild) : Int := (longOptions b).length + 1

/-- The allocated array, and whatever memory is around it. -/
def freshChecker (b : OptionBuild) (around : Int → Nat) (i : Int) : Nat :=
  if 0 ≤ i ∧ i < sizeLongOptions b then 0 else around i

/-- The returns for a command line, whose first argument is the name of the program. -/
def parserRets (b : OptionBuild) (posixly : Bool) (argv : List (List Char)) : List Ret :=
  rets posixly shortOptions (longOptions b) ⟨[], argv.tail⟩

/-- The entry of the table that a return stands for. -/
def optionOf (b : OptionBuild) (r : Ret) : Option Nat :=
  if r.c = 0 then some r.index.toNat
  else (longOptions b).findIdx? fun o => o.flag = none ∧ (o.val : Int) = r.c

/-- The options of a command line in their order. -/
def optionsOf (b : OptionBuild) (rs : List Ret) : List Nat := rs.filterMap (optionOf b)

/-- What the check of duplicates does with a command line. -/
structure ChecksDuplicates {σ : Type} (b : OptionBuild) (rs : List Ret)
    (run : ParserEnd σ × List Int) : Prop where
  inBounds : ∀ i ∈ run.2, 0 ≤ i ∧ i < sizeLongOptions b
  rejects : ¬ (optionsOf b rs).Nodup → ∀ s, run.1 ≠ .parsed s
  admits : (optionsOf b rs).Nodup → run.1 ≠ .duplicated

/-- All options are different, and other ones than those seen before. -/
def Fresh (b : OptionBuild) (seen : List Nat) (rs : List Ret) : Prop :=
  (optionsOf b rs).Nodup ∧ ∀ i ∈ optionsOf b rs, i ∉ seen

/-- Returns of different options that the cases of the switch all take. -/
structure Taken {σ : Type} (b : OptionBuild) (handle : σ → Ret → Option σ) (seen : List Nat)
    (rs : List Ret) (s s' : σ) : Prop where
  known : ∀ r ∈ rs, r.c ≠ unknown.c
  fresh : Fresh b seen rs
  handled : rs.foldlM handle s = some s'

/-- A command line with an error in front of which all options are different and taken. -/
def ReachesUnknown {σ : Type} (b : OptionBuild) (handle : σ → Ret → Option σ) (seen : List Nat)
    (rs : List Ret) (s : σ) : Prop :=
  ∃ front rest s', rs = front ++ unknown :: rest ∧ Taken b handle seen front s s'

/-- The slots of the options seen so far are the ones that are not zero. -/
def Marks (b : OptionBuild) (duplicatesChecker : Int → Nat) (seen : List Nat) : Prop :=
  ∀ i < (longOptions b).length, duplicatesChecker (optionSlot i) ≠ 0 ↔ i ∈ seen

section Returns

variable {b : OptionBuild} {r : Ret}

theorem aliased_optionOf {o : LongOption} (ho : o ∈ aliasedOptions) (hc : r.c = o.val) :
    r.c ≠ unknown.c ∧ ∃ i, optionOf b r = some i ∧ i < (longOptions b).length ∧
      duplicateSlot r = optionSlot i := by
  obtain ⟨hf, hl⟩ := aliasedOptions_letter o ho
  have hu : unknown.c = 63 := rfl
  have hz : r.c ≠ 0 := by omega
  refine ⟨by omega, ?_⟩
  have hex : ∃ o ∈ longOptions b, decide (o.flag = none ∧ (o.val : Int) = r.c) = true :=
    ⟨o, List.mem_append_left _ ho, decide_eq_true ⟨hf, hc.symm⟩⟩
  obtain ⟨i, hi⟩ := Option.isSome_iff_exists.mp
    (List.findIdx?_isSome.trans (List.any_eq_true.mpr hex))
  obtain ⟨hlt, hp, -⟩ := List.findIdx?_eq_some_iff_getElem.mp hi
  obtain ⟨hif, hiv⟩ := of_decide_eq_true hp
  refine ⟨i, ?_, hlt, ?_⟩
  · rw [optionOf, if_neg hz, hi]
  · have ha := aliased_of_flag (List.getElem?_eq_getElem hlt) hif
    rw [duplicateSlot, if_neg hz, optionSlot, ha, ← hiv]

/-- A return that is no error stands for an entry of the table, and is counted in its slot. -/
theorem known_optionOf (h : Known shortOptions (longOptions b) r) :
    r.c ≠ unknown.c ∧ ∃ i, optionOf b r = some i ∧ i < (longOptions b).length ∧
      duplicateSlot r = optionSlot i := by
  cases h with
  | short c hc h =>
    obtain ⟨o, ho, hv⟩ := shortOptions_aliased hc
    exact aliased_optionOf ho (by rw [h, hv])
  | aliased o i hi hf h => exact aliased_optionOf (List.mem_of_getElem? (aliased_of_flag hi hf)) h
  | long o i hi hf h hr =>
    have hu : unknown.c = 63 := rfl
    refine ⟨by omega, i, ?_, (List.getElem?_eq_some_iff.mp hi).1, ?_⟩
    · rw [optionOf, if_pos h, hr, Int.toNat_natCast]
    · rw [duplicateSlot, if_pos h, hr, optionSlot, flagged_index hi hf]

theorem duplicateSlot_unknown : duplicateSlot unknown = -8 := by
  decide

theorem optionOf_unknown : optionOf b unknown = none := by
  have hu : unknown.c = 63 := rfl
  rw [optionOf, if_neg (by omega), List.findIdx?_eq_none_iff]
  intro o ho
  refine decide_eq_false ?_
  rintro ⟨hf, hv⟩
  rcases List.mem_append.mp ho with ho | ho
  · have hl := (aliasedOptions_letter o ho).2
    omega
  · exact flaggedOptions_flag o ho hf

theorem isDuplicate_iff (duplicatesChecker : Int → Nat) (h : r.c ≠ unknown.c) :
    isDuplicate duplicatesChecker r = true ↔ duplicatesChecker (duplicateSlot r) ≠ 0 := by
  unfold isDuplicate duplicateSlot
  split
  next => exact decide_eq_true_iff
  next => simp [h]

theorem isDuplicate_unknown (duplicatesChecker : Int → Nat) :
    isDuplicate duplicatesChecker unknown = false := by
  rw [isDuplicate, if_neg (by decide)]
  simp

end Returns

section Loop

variable {σ : Type} {b : OptionBuild} {handle : σ → Ret → Option σ} {r : Ret} {rs : List Ret}
  {s s' : σ} {duplicatesChecker : Int → Nat} {seen : List Nat} {i : Nat}

/-- A return is counted for its option and for no other one. -/
theorem Marks.count (hm : Marks b duplicatesChecker seen) (hslot : duplicateSlot r = optionSlot i) :
    Marks b (countOption duplicatesChecker r) (i :: seen) := by
  intro j hj
  unfold countOption
  rw [hslot, List.mem_cons]
  by_cases hji : j = i
  · subst hji
    rw [Function.update_self]
    exact ⟨fun _ => .inl rfl, fun _ => Nat.succ_ne_zero _⟩
  · have hne : optionSlot j ≠ optionSlot i := fun h => hji (optionSlot_inj h)
    rw [Function.update_of_ne hne, hm j hj]
    exact ⟨.inr, fun h => h.resolve_left hji⟩

/-- What a round does with the return of an option. -/
theorem parserLoop_known (hk : Known shortOptions (longOptions b) r)
    (hm : Marks b duplicatesChecker seen) : ∃ i, optionOf b r = some i ∧ r.c ≠ unknown.c ∧
      (0 ≤ duplicateSlot r ∧ duplicateSlot r < sizeLongOptions b) ∧
      Marks b (countOption duplicatesChecker r) (i :: seen) ∧
      (i ∈ seen ∧ parserLoop handle (r :: rs) s duplicatesChecker =
          (.duplicated, [duplicateSlot r]) ∨
        i ∉ seen ∧ handle s r = none ∧ parserLoop handle (r :: rs) s duplicatesChecker =
          (.stopped, [duplicateSlot r, duplicateSlot r]) ∨
        i ∉ seen ∧ ∃ t, handle s r = some t ∧ parserLoop handle (r :: rs) s duplicatesChecker =
          ((parserLoop handle rs t (countOption duplicatesChecker r)).1,
            duplicateSlot r :: duplicateSlot r ::
              (parserLoop handle rs t (countOption duplicatesChecker r)).2)) := by
  obtain ⟨hu, i, hi, hlt, hslot⟩ := known_optionOf hk
  have hrange := optionSlot_range hlt
  rw [← hslot] at hrange
  refine ⟨i, hi, hu, hrange, hm.count hslot, ?_⟩
  have hd := (isDuplicate_iff duplicatesChecker hu).trans (hslot ▸ hm i hlt)
  by_cases hseen : i ∈ seen
  · refine .inl ⟨hseen, ?_⟩
    rw [parserLoop, if_pos (hd.mpr hseen)]
  · have hno : ¬ isDuplicate duplicatesChecker r = true := fun h => hseen (hd.mp h)
    refine .inr ?_
    cases hh : handle s r with
    | none =>
      refine .inl ⟨hseen, rfl, ?_⟩
      rw [parserLoop, if_neg hno, if_neg hu, hh]
    | some t =>
      refine .inr ⟨hseen, t, rfl, ?_⟩
      rw [parserLoop, if_neg hno, if_neg hu, hh]

/-- At an error the loop ends, with a write in front of the array. -/
theorem parserLoop_unknown : parserLoop handle (unknown :: rs) s duplicatesChecker =
    (.stopped, [-8, -8]) := by
  have hd := isDuplicate_unknown duplicatesChecker
  rw [parserLoop, if_neg (by rw [hd]; decide), if_pos rfl, duplicateSlot_unknown]

theorem fresh_cons (hi : optionOf b r = some i) :
    Fresh b seen (r :: rs) ↔ i ∉ seen ∧ Fresh b (i :: seen) rs := by
  have hcons : optionsOf b (r :: rs) = i :: optionsOf b rs := List.filterMap_cons_some hi
  unfold Fresh
  rw [hcons, List.nodup_cons, List.forall_mem_cons]
  constructor
  · rintro ⟨⟨hni, hnd⟩, hseen, hall⟩
    refine ⟨hseen, hnd, fun j hj hm => ?_⟩
    rcases List.mem_cons.mp hm with rfl | hm
    · exact hni hj
    · exact hall j hj hm
  · rintro ⟨hseen, hnd, hall⟩
    refine ⟨⟨fun hm => hall i hm List.mem_cons_self, hnd⟩, hseen, fun j hj hm => ?_⟩
    exact hall j hj (List.mem_cons_of_mem i hm)

theorem taken_cons (hi : optionOf b r = some i) (hu : r.c ≠ unknown.c) :
    Taken b handle seen (r :: rs) s s' ↔
      i ∉ seen ∧ ∃ t, handle s r = some t ∧ Taken b handle (i :: seen) rs t s' := by
  constructor
  · rintro ⟨hknown, hfresh, hh⟩
    obtain ⟨hseen, hfresh⟩ := (fresh_cons hi).mp hfresh
    rw [List.foldlM_cons] at hh
    obtain ⟨t, ht, hh⟩ := Option.bind_eq_some_iff.mp hh
    exact ⟨hseen, t, ht, (List.forall_mem_cons.mp hknown).2, hfresh, hh⟩
  · rintro ⟨hseen, t, ht, hknown, hfresh, hh⟩
    refine ⟨List.forall_mem_cons.mpr ⟨hu, hknown⟩, (fresh_cons hi).mpr ⟨hseen, hfresh⟩, ?_⟩
    rw [List.foldlM_cons]
    exact Option.bind_eq_some_iff.mpr ⟨t, ht, hh⟩

theorem taken_nil : Taken b handle seen [] s s :=
  ⟨fun _ h => absurd h List.not_mem_nil, ⟨List.nodup_nil, fun _ h => absurd h List.not_mem_nil⟩, rfl⟩

theorem reachesUnknown_cons (hi : optionOf b r = some i) (hu : r.c ≠ unknown.c) :
    ReachesUnknown b handle seen (r :: rs) s ↔
      i ∉ seen ∧ ∃ t, handle s r = some t ∧ ReachesUnknown b handle (i :: seen) rs t := by
  constructor
  · rintro ⟨front, rest, s', he, ht⟩
    cases front with
    | nil =>
      obtain rfl := (List.cons.inj he).1
      exact absurd rfl hu
    | cons r' front =>
      obtain ⟨rfl, rfl⟩ := List.cons.inj he
      obtain ⟨hseen, t, hh, ht⟩ := (taken_cons hi hu).mp ht
      exact ⟨hseen, t, hh, front, rest, s', rfl, ht⟩
  · rintro ⟨hseen, t, hh, front, rest, s', rfl, ht⟩
    exact ⟨r :: front, rest, s', rfl, (taken_cons hi hu).mpr ⟨hseen, t, hh, ht⟩⟩

/-- The check stays in the array as long as no error is reached. -/
theorem parserLoop_inBounds (hk : ∀ r ∈ rs, r = unknown ∨ Known shortOptions (longOptions b) r)
    (hm : Marks b duplicatesChecker seen) :
    (∀ i ∈ (parserLoop handle rs s duplicatesChecker).2, 0 ≤ i ∧ i < sizeLongOptions b) ↔
      ¬ ReachesUnknown b handle seen rs s := by
  induction rs generalizing s duplicatesChecker seen with
  | nil =>
    constructor
    · rintro - ⟨front, rest, s', he, -⟩
      cases front with
      | nil => cases he
      | cons r front => cases he
    · intro _ i hi
      cases hi
  | cons r rs ih =>
    obtain ⟨hr, hrs⟩ := List.forall_mem_cons.mp hk
    rcases hr with rfl | hr
    · rw [parserLoop_unknown]
      constructor
      · intro h
        have hneg := (h (-8) List.mem_cons_self).1
        omega
      · intro h
        exact absurd ⟨[], rs, s, rfl, taken_nil⟩ h
    · obtain ⟨i, hi, hu, hrange, hmarks, hcases⟩ :=
        @parserLoop_known σ b handle r rs s duplicatesChecker seen hr hm
      rw [reachesUnknown_cons hi hu]
      rcases hcases with ⟨hseen, he⟩ | ⟨hseen, hh, he⟩ | ⟨hseen, t, hh, he⟩
      · rw [he]
        simp [hseen, hrange]
      · rw [he]
        simp [hh, hrange]
      · rw [he]
        have hrest := @ih t (countOption duplicatesChecker r) (i :: seen) hrs hmarks
        simp only [List.forall_mem_cons, hrange, and_self, true_and, hrest, hseen, hh,
          Option.some.injEq, exists_eq_left', not_false_eq_true]

/-- A command line that is taken to its end has no option twice. -/
theorem parserLoop_parsed (hk : ∀ r ∈ rs, r = unknown ∨ Known shortOptions (longOptions b) r)
    (hm : Marks b duplicatesChecker seen)
    (h : (parserLoop handle rs s duplicatesChecker).1 = .parsed s') : Fresh b seen rs := by
  induction rs generalizing s duplicatesChecker seen with
  | nil => exact (@taken_nil σ b handle s seen).fresh
  | cons r rs ih =>
    obtain ⟨hr, hrs⟩ := List.forall_mem_cons.mp hk
    rcases hr with rfl | hr
    · rw [parserLoop_unknown] at h
      cases h
    · obtain ⟨i, hi, -, -, hmarks, hcases⟩ :=
        @parserLoop_known σ b handle r rs s duplicatesChecker seen hr hm
      rcases hcases with ⟨-, he⟩ | ⟨-, -, he⟩ | ⟨hseen, t, -, he⟩
      · rw [he] at h
        cases h
      · rw [he] at h
        cases h
      · rw [he] at h
        exact (fresh_cons hi).mpr ⟨hseen, ih hrs hmarks h⟩

/-- A command line is rejected as a duplicate only for an option that it has twice. -/
theorem parserLoop_duplicated (hk : ∀ r ∈ rs, r = unknown ∨ Known shortOptions (longOptions b) r)
    (hm : Marks b duplicatesChecker seen)
    (h : (parserLoop handle rs s duplicatesChecker).1 = .duplicated) : ¬ Fresh b seen rs := by
  induction rs generalizing s duplicatesChecker seen with
  | nil => cases h
  | cons r rs ih =>
    obtain ⟨hr, hrs⟩ := List.forall_mem_cons.mp hk
    rcases hr with rfl | hr
    · rw [parserLoop_unknown] at h
      cases h
    · obtain ⟨i, hi, -, -, hmarks, hcases⟩ :=
        @parserLoop_known σ b handle r rs s duplicatesChecker seen hr hm
      rw [fresh_cons hi]
      rcases hcases with ⟨hseen, -⟩ | ⟨-, -, he⟩ | ⟨-, t, -, he⟩
      · exact fun hf => hf.1 hseen
      · rw [he] at h
        cases h
      · rw [he] at h
        exact fun hf => ih hrs hmarks h hf.2

end Loop

section Parser

variable {σ : Type}

theorem freshChecker_marks (b : OptionBuild) (around : Int → Nat) :
    Marks b (freshChecker b around) [] := by
  intro i hi
  have hz : freshChecker b around (optionSlot i) = 0 := if_pos (optionSlot_range hi)
  simp [hz]

/-- The duplicate check of the parser, for every command line, every switch and whatever memory is
around the array. -/
theorem parserLoop_checksDuplicates_iff (b : OptionBuild) (posixly : Bool)
    (argv : List (List Char)) (handle : σ → Ret → Option σ) (s : σ) (around : Int → Nat) :
    ChecksDuplicates b (parserRets b posixly argv)
        (parserLoop handle (parserRets b posixly argv) s (freshChecker b around)) ↔
      ¬ ReachesUnknown b handle [] (parserRets b posixly argv) s := by
  have hk : ∀ r ∈ parserRets b posixly argv, r = unknown ∨
      Known shortOptions (longOptions b) r := fun r hr => known_of_mem_rets hr
  have hm := freshChecker_marks b around
  have hin := @parserLoop_inBounds σ b handle _ s _ [] hk hm
  constructor
  · exact fun h => hin.mp h.inBounds
  · intro h
    refine ⟨hin.mpr h, fun hdup s' he => ?_, fun hnd he => ?_⟩
    · exact hdup (parserLoop_parsed hk hm he).1
    · exact parserLoop_duplicated hk hm he ⟨hnd, fun i _ => List.not_mem_nil⟩

/-- The command line `ib_send_bw -9`. -/
def digitOption : List (List Char) := ["ib_send_bw".toList, "-9".toList]

def bareBuild : OptionBuild :=
  ⟨false, false, false, false, false, false, false, false, false, false, false, false⟩

theorem digitOption_outOfBounds :
    ¬ ChecksDuplicates bareBuild (parserRets bareBuild false digitOption)
      (parserLoop (fun (s : Unit) _ => some s) (parserRets bareBuild false digitOption) ()
        (freshChecker bareBuild fun _ => 0)) := by
  have hrets : parserRets bareBuild false digitOption = [unknown] := by
    have h1 : getoptLong false shortOptions (longOptions bareBuild) ⟨[], ["-9".toList]⟩ =
        (unknown, ⟨[], []⟩) := by
      rfl
    have h2 : getoptLong false shortOptions (longOptions bareBuild) ⟨[], []⟩ =
        (done, ⟨[], []⟩) := by
      rfl
    change rets false shortOptions (longOptions bareBuild) ⟨[], ["-9".toList]⟩ = _
    rw [rets_cons (by rw [h1]; decide), h1, rets_done (by rw [h2]; rfl)]
  rw [hrets, parserLoop_unknown]
  intro h
  have hneg := (h.inBounds (-8) List.mem_cons_self).1
  omega

end Parser

end Perftest
