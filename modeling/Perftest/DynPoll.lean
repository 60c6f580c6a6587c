import Mathlib.Data.Rat.Floor
import Perftest.Lib.Transition

namespace Perftest

open Transition

structure DynCqePollConfig where
  min : Nat
  max : Nat
  stabilize : Nat
  threshold : Rat

/-- The constants of `init_dyn_poll_ctx`. -/
def dynCqePollConfig : DynCqePollConfig :=
  { min := 16, max := 1024, stabilize := 10, threshold := 85 / 100 }

/-- The state of the adaptive poll, with the flag that `dynamic_enabled` points to. -/
structure DynPollState where
  currSize : Nat
  stableIters : Nat
  lastNe : Nat
  dynamicEnabled : Bool
deriving DecidableEq, Repr

namespace DynPollState

/-- What `poll_cq_adaptive` does with the result `ne` of its poll. -/
def pollCqAdaptive (s : DynPollState) (ne : Nat) : DynPollState :=
  let config := dynCqePollConfig
  let s' :=
    if ne = s.currSize ∧ s.currSize < config.max then
      { s with currSize := Nat.min ((s.currSize + ne) / 2) config.max % 2 ^ 16, stableIters := 0 }
    else if (ne : Rat) < s.currSize * config.threshold then
      if config.min < s.currSize then
        { s with currSize := Nat.max ((s.currSize + ne) / 2) config.min % 2 ^ 16, stableIters := 0 }
      else s
    else if ne = s.lastNe then
      { s with
        stableIters := s.stableIters + 1
        dynamicEnabled := if config.stabilize ≤ s.stableIters + 1 then false
          else s.dynamicEnabled }
    else { s with stableIters := 0 }
  { s' with lastNe := ne }

/-- What a sequence of polls leaves. -/
def polled (s : DynPollState) (nes : List Nat) : DynPollState := nes.foldl pollCqAdaptive s

/-- Each poll returns at most what it asked for. -/
def Polls (s : DynPollState) : List Nat → Prop
  | [] => True
  | ne :: rest => ne ≤ s.currSize ∧ Polls (s.pollCqAdaptive ne) rest

instance Polls.decidable : (s : DynPollState) → (nes : List Nat) → Decidable (Polls s nes)
  | _, [] => isTrue trivial
  | s, ne :: rest =>
    match Nat.decLe ne s.currSize, decidable (s.pollCqAdaptive ne) rest with
    | isTrue h, isTrue h' => isTrue ⟨h, h'⟩
    | isFalse h, _ => isFalse fun hp => h hp.1
    | _, isFalse h => isFalse fun hp => h hp.2

def InRange (s : DynPollState) : Prop :=
  dynCqePollConfig.min ≤ s.currSize ∧ s.currSize ≤ dynCqePollConfig.max

/-- A poll that fills a size below the maximum. -/
def FullBatch (s : DynPollState) (ne : Nat) : Prop :=
  ne = s.currSize ∧ s.currSize < dynCqePollConfig.max

/-- The state that `init_dyn_poll_ctx` leaves for a first size. -/
def initial (size : Nat) : DynPollState :=
  { currSize := size, stableIters := 0, lastNe := 0, dynamicEnabled := true }

/-- The last `stabilize` polls had the same result and none of them changed the size. -/
def Settled (s : DynPollState) (nes : List Nat) (ne : Nat) : Prop :=
  ∃ pre, nes = pre ++ List.replicate dynCqePollConfig.stabilize ne ∧
    ∀ k, k ≤ dynCqePollConfig.stabilize →
      (s.polled (pre ++ List.replicate k ne)).currSize = (s.polled pre).currSize

/-- What is promised of a poll with result `ne` behind the polls `nes`. -/
structure AdaptsAt (s : DynPollState) (nes : List Nat) (ne : Nat) : Prop where
  range : (s.polled (nes ++ [ne])).InRange
  grows : (s.polled nes).FullBatch ne →
    (s.polled nes).currSize < (s.polled (nes ++ [ne])).currSize
  shrinks : (ne : Rat) < (s.polled nes).currSize * dynCqePollConfig.threshold →
    dynCqePollConfig.min < (s.polled nes).currSize →
    (s.polled (nes ++ [ne])).currSize < (s.polled nes).currSize
  off : (s.polled nes).dynamicEnabled = true →
    (s.polled (nes ++ [ne])).dynamicEnabled = false → s.Settled (nes ++ [ne]) ne

variable {s : DynPollState} {ne : Nat} {nes : List Nat}

theorem polled_append (s : DynPollState) (nes nes' : List Nat) :
    s.polled (nes ++ nes') = (s.polled nes).polled nes' := by
  unfold polled
  rw [List.foldl_append]

theorem polled_concat (s : DynPollState) (nes : List Nat) (ne : Nat) :
    s.polled (nes ++ [ne]) = (s.polled nes).pollCqAdaptive ne := by
  rw [polled_append]
  simp only [polled, List.foldl_cons, List.foldl_nil]

theorem Polls.append {nes' : List Nat} (h : s.Polls (nes ++ nes')) :
    s.Polls nes ∧ (s.polled nes).Polls nes' := by
  induction nes generalizing s with
  | nil => exact ⟨trivial, h⟩
  | cons ne nes ih =>
    obtain ⟨hle, hrest⟩ := h
    obtain ⟨h1, h2⟩ := ih hrest
    exact ⟨⟨hle, h1⟩, h2⟩

@[simp] theorem pollCqAdaptive_lastNe : (s.pollCqAdaptive ne).lastNe = ne := by
  unfold pollCqAdaptive
  dsimp only

theorem lt_currSize_of_low (hle : ne ≤ s.currSize)
    (hlow : (ne : Rat) < s.currSize * dynCqePollConfig.threshold) : ne < s.currSize := by
  apply lt_of_le_of_ne hle
  intro he
  rw [he] at hlow
  have hpos : (0 : Rat) ≤ s.currSize := Nat.cast_nonneg _
  have hthr : dynCqePollConfig.threshold = 85 / 100 := rfl
  rw [hthr] at hlow
  linarith

/-- What a poll can do: keep a full size, shrink, fall below the threshold at the minimum, repeat the
last result, or return another one. -/
theorem pollCqAdaptive_cases (hr : s.InRange) (hle : ne ≤ s.currSize) :
    (s.FullBatch ne ∧ s.pollCqAdaptive ne = { s with stableIters := 0, lastNe := ne }) ∨
    ((ne : Rat) < s.currSize * dynCqePollConfig.threshold ∧ dynCqePollConfig.min < s.currSize ∧
      ne < s.currSize ∧ s.pollCqAdaptive ne =
        { s with
          currSize := Nat.max ((s.currSize + ne) / 2) dynCqePollConfig.min
          stableIters := 0
          lastNe := ne }) ∨
    ((ne : Rat) < s.currSize * dynCqePollConfig.threshold ∧ s.currSize = dynCqePollConfig.min ∧
      s.pollCqAdaptive ne = { s with lastNe := ne }) ∨
    (¬ (ne : Rat) < s.currSize * dynCqePollConfig.threshold ∧ ne = s.lastNe ∧
      s.pollCqAdaptive ne =
        { s with
          stableIters := s.stableIters + 1
          dynamicEnabled := if dynCqePollConfig.stabilize ≤ s.stableIters + 1 then false
            else s.dynamicEnabled }) ∨
    (¬ (ne : Rat) < s.currSize * dynCqePollConfig.threshold ∧ s.pollCqAdaptive ne =
      { s with stableIters := 0, lastNe := ne }) := by
  obtain ⟨hlo, hhi⟩ := hr
  have hmax : dynCqePollConfig.max = 1024 := rfl
  unfold pollCqAdaptive
  dsimp only
  by_cases hfull : ne = s.currSize ∧ s.currSize < dynCqePollConfig.max
  · left
    have hsize : Nat.min ((s.currSize + ne) / 2) dynCqePollConfig.max % 2 ^ 16 = s.currSize := by
      rw [show (s.currSize + ne) / 2 = s.currSize by omega,
        show Nat.min s.currSize dynCqePollConfig.max = s.currSize from Nat.min_eq_left hhi]
      omega
    refine ⟨hfull, ?_⟩
    rw [if_pos hfull, hsize]
  · right
    rw [if_neg hfull]
    by_cases hlow : (ne : Rat) < s.currSize * dynCqePollConfig.threshold
    · rw [if_pos hlow]
      by_cases hmin : dynCqePollConfig.min < s.currSize
      · left
        have hlt := lt_currSize_of_low hle hlow
        have hsize : Nat.max ((s.currSize + ne) / 2) dynCqePollConfig.min < 2 ^ 16 := by
          have hm : dynCqePollConfig.min ≤ 2 ^ 15 := by decide
          apply max_lt <;> omega
        refine ⟨hlow, hmin, hlt, ?_⟩
        rw [if_pos hmin, Nat.mod_eq_of_lt hsize]
      · right
        left
        exact ⟨hlow, by omega, by rw [if_neg hmin]⟩
    · right
      right
      rw [if_neg hlow]
      by_cases hlast : ne = s.lastNe
      · left
        refine ⟨hlow, hlast, ?_⟩
        rw [if_pos hlast, hlast]
      · right
        exact ⟨hlow, by rw [if_neg hlast]⟩

theorem InRange.poll (hr : s.InRange) (hle : ne ≤ s.currSize) : (s.pollCqAdaptive ne).InRange := by
  obtain ⟨hlo, hhi⟩ := id hr
  rcases pollCqAdaptive_cases hr hle with ⟨-, he⟩ | ⟨-, -, hlt, he⟩ | ⟨-, -, he⟩ | ⟨-, -, he⟩ |
    ⟨-, he⟩
  · rw [he]
    exact hr
  · rw [he]
    refine ⟨Nat.le_max_right _ _, ?_⟩
    have hm : dynCqePollConfig.min ≤ dynCqePollConfig.max := by decide
    apply max_le <;> omega
  · rw [he]
    exact hr
  · rw [he]
    exact hr
  · rw [he]
    exact hr

theorem InRange.polled (hr : s.InRange) (hp : s.Polls nes) : (s.polled nes).InRange := by
  induction nes generalizing s with
  | nil => exact hr
  | cons ne nes ih =>
    obtain ⟨hle, hrest⟩ := hp
    exact ih (hr.poll hle) hrest

/-- A full batch does not grow the size: the average of the size and itself is the size. -/
theorem FullBatch.currSize (hr : s.InRange) (h : s.FullBatch ne) :
    (s.pollCqAdaptive ne).currSize = s.currSize := by
  have hlt : ¬ ne < s.currSize := by
    rw [h.1]
    exact Nat.lt_irrefl _
  rcases pollCqAdaptive_cases hr (Nat.le_of_eq h.1) with ⟨-, he⟩ | ⟨-, -, hlt', -⟩ | ⟨-, -, he⟩ |
    ⟨-, -, he⟩ | ⟨-, he⟩
  · rw [he]
  · exact absurd hlt' hlt
  · rw [he]
  · rw [he]
  · rw [he]

theorem pollCqAdaptive_shrinks (hr : s.InRange) (hle : ne ≤ s.currSize)
    (hlow : (ne : Rat) < s.currSize * dynCqePollConfig.threshold)
    (hmin : dynCqePollConfig.min < s.currSize) :
    (s.pollCqAdaptive ne).currSize < s.currSize := by
  have hlt := lt_currSize_of_low hle hlow
  rcases pollCqAdaptive_cases hr hle with ⟨h, -⟩ | ⟨-, -, -, he⟩ | ⟨-, h, -⟩ | ⟨h, -, -⟩ | ⟨h, -⟩
  · exact absurd h.1 (Nat.ne_of_lt hlt)
  · rw [he]
    apply max_lt <;> omega
  · omega
  · exact absurd hlow h
  · exact absurd hlow h

/-- The polls that the stability counter counts: the last ones, with the last result and without a
change of the size. A result below the threshold keeps a stale count at the minimum, which the next
result at or above it clears. -/
def Stable (s : DynPollState) (nes : List Nat) : Prop :=
  ¬ ((s.polled nes).lastNe : Rat) < (s.polled nes).currSize * dynCqePollConfig.threshold →
    ∃ pre, nes = pre ++ List.replicate (s.polled nes).stableIters (s.polled nes).lastNe ∧
      ∀ k, k ≤ (s.polled nes).stableIters →
        (s.polled (pre ++ List.replicate k (s.polled nes).lastNe)).currSize =
          (s.polled nes).currSize

theorem Stable.of_zero (h : (s.polled nes).stableIters = 0) : s.Stable nes := by
  intro _
  refine ⟨nes, ?_, ?_⟩
  · rw [h, List.replicate_zero, List.append_nil]
  · intro k hk
    rw [h, Nat.le_zero] at hk
    rw [hk, List.replicate_zero, List.append_nil]

theorem Stable.repeat (h : s.Stable nes) (hne : ne = (s.polled nes).lastNe)
    (hhigh : ¬ (ne : Rat) < (s.polled nes).currSize * dynCqePollConfig.threshold)
    (hsize : (s.polled (nes ++ [ne])).currSize = (s.polled nes).currSize) :
    ∃ pre, nes ++ [ne] = pre ++ List.replicate ((s.polled nes).stableIters + 1) ne ∧
      ∀ k, k ≤ (s.polled nes).stableIters + 1 →
        (s.polled (pre ++ List.replicate k ne)).currSize = (s.polled nes).currSize := by
  rw [hne] at hhigh
  obtain ⟨pre, hpre, hk⟩ := h hhigh
  rw [← hne] at hpre hk
  have hsplit : nes ++ [ne] = pre ++ List.replicate ((s.polled nes).stableIters + 1) ne := by
    rw [List.replicate_succ', ← List.append_assoc, ← hpre]
  refine ⟨pre, hsplit, fun k hle => ?_⟩
  rcases Nat.lt_or_ge (s.polled nes).stableIters k with hgt | hle'
  · rw [show k = (s.polled nes).stableIters + 1 by omega, ← hsplit, hsize]
  · exact hk k hle'

theorem Stable.poll (hr : (s.polled nes).InRange) (hle : ne ≤ (s.polled nes).currSize)
    (h : s.Stable nes) : s.Stable (nes ++ [ne]) := by
  have hc := polled_concat s nes ne
  rcases pollCqAdaptive_cases hr hle with ⟨-, he⟩ | ⟨-, -, -, he⟩ | ⟨hlow, -, he⟩ |
    ⟨hhigh, hne, he⟩ | ⟨-, he⟩
  · exact .of_zero (by rw [hc, he])
  · exact .of_zero (by rw [hc, he])
  · intro hn
    rw [hc, he] at hn
    exact absurd hlow hn
  · intro _
    have hsize : (s.polled (nes ++ [ne])).currSize = (s.polled nes).currSize := by rw [hc, he]
    have hcount : (s.polled (nes ++ [ne])).stableIters = (s.polled nes).stableIters + 1 := by
      rw [hc, he]
    have hlast : (s.polled (nes ++ [ne])).lastNe = ne := by rw [hc, pollCqAdaptive_lastNe]
    rw [hcount, hlast, hsize]
    exact h.repeat hne hhigh hsize
  · exact .of_zero (by rw [hc, he])

theorem Stable.of_initial {size : Nat} (hr : (initial size).InRange)
    (hp : (initial size).Polls nes) : (initial size).Stable nes := by
  induction nes using List.reverseRecOn with
  | nil => exact .of_zero rfl
  | append_singleton nes ne ih =>
    obtain ⟨h1, h2, -⟩ := hp.append
    exact (ih h1).poll (hr.polled h1) h2

/-- Dynamic polling is only switched off behind a settled sequence of polls. -/
theorem Stable.settled (hr : (s.polled nes).InRange) (hle : ne ≤ (s.polled nes).currSize)
    (h : s.Stable nes) (hon : (s.polled nes).dynamicEnabled = true)
    (hoff : (s.polled (nes ++ [ne])).dynamicEnabled = false) : s.Settled (nes ++ [ne]) ne := by
  have hc := polled_concat s nes ne
  rcases pollCqAdaptive_cases hr hle with ⟨-, he⟩ | ⟨-, -, -, he⟩ | ⟨-, -, he⟩ |
    ⟨hhigh, hne, he⟩ | ⟨-, he⟩
  · rw [hc, he, hon] at hoff
    cases hoff
  · rw [hc, he, hon] at hoff
    cases hoff
  · rw [hc, he, hon] at hoff
    cases hoff
  · have hsize : (s.polled (nes ++ [ne])).currSize = (s.polled nes).currSize := by rw [hc, he]
    have hcount : dynCqePollConfig.stabilize ≤ (s.polled nes).stableIters + 1 := by
      by_contra hn
      rw [hc, he, if_neg hn, hon] at hoff
      cases hoff
    obtain ⟨pre, hpre, hk⟩ := h.repeat hne hhigh hsize
    obtain ⟨d, hd⟩ := Nat.exists_eq_add_of_le' hcount
    rw [hd] at hpre hk
    have hrep : ∀ k, pre ++ List.replicate d ne ++ List.replicate k ne =
        pre ++ List.replicate (d + k) ne := by
      intro k
      rw [List.append_assoc, List.replicate_append_replicate]
    refine ⟨pre ++ List.replicate d ne, ?_, fun k hle => ?_⟩
    · rw [hrep, hpre]
    · rw [hrep, hk (d + k) (by omega), hk d (by omega)]
  · rw [hc, he, hon] at hoff
    cases hoff

/-- The adaptive poll behaves as promised through a sequence of polls exactly when none of them fills
a size below the maximum. -/
theorem adapts_iff {size : Nat} (hr : dynCqePollConfig.min ≤ size ∧ size ≤ dynCqePollConfig.max)
    (hp : (initial size).Polls nes) : AtEach (initial size).AdaptsAt nes ↔
      AtEach (fun pre ne => ¬ ((initial size).polled pre).FullBatch ne) nes := by
  have hin : (initial size).InRange := hr
  apply atEach_iff
  intro pre ne post hs _
  rw [hs] at hp
  obtain ⟨hpre, hle, -⟩ := hp.append
  have hrange := hin.polled hpre
  constructor
  · intro h hfull
    have hgrow := h.grows hfull
    rw [polled_concat, hfull.currSize hrange] at hgrow
    exact Nat.lt_irrefl _ hgrow
  · intro h
    refine ⟨?_, fun hfull => absurd hfull h, fun hlow hmin => ?_,
      fun hon hoff => (Stable.of_initial hin hpre).settled hrange hle hon hoff⟩
    · rw [polled_concat]
      exact hrange.poll hle
    · rw [polled_concat]
      exact pollCqAdaptive_shrinks hrange hle hlow hmin

/-- Equal results of a size that stays. -/
theorem adapts_settling : AtEach (initial 20).AdaptsAt (List.replicate 11 18) := by
  refine (adapts_iff (by decide) (by decide +kernel)).mpr fun pre ne post hs hfull => ?_
  have hmem : ∀ b ∈ pre ++ ne :: post, b = 18 := by
    intro b hb
    rw [← hs] at hb
    exact List.eq_of_mem_replicate hb
  have hpre : pre = List.replicate pre.length 18 :=
    List.eq_replicate_of_mem fun b hb => hmem b (List.mem_append_left _ hb)
  have hne : ne = 18 := hmem ne (List.mem_append_right _ List.mem_cons_self)
  have hlen : pre.length < 11 := by
    have := congrArg List.length hs
    simp only [List.length_replicate, List.length_append, List.length_cons] at this
    omega
  have hsize : ∀ k, k < 11 → ((initial 20).polled (List.replicate k 18)).currSize = 20 := by
    decide +kernel
  have hfull := hfull.1
  rw [hpre, hsize _ hlen, hne] at hfull
  omega

/-- A full batch of 16 leaves the size at 16. -/
theorem fullBatch_not_adapts : (initial 16).Polls [16] ∧ ¬ (initial 16).AdaptsAt [] 16 := by
  refine ⟨by decide, fun h => ?_⟩
  have hfull : (initial 16).FullBatch 16 := ⟨rfl, by decide⟩
  have hr : (initial 16).InRange := ⟨by decide, by decide⟩
  have hgrow := h.grows hfull
  rw [polled_concat] at hgrow
  have hsize := hfull.currSize hr
  change _ < ((initial 16).pollCqAdaptive 16).currSize at hgrow
  rw [hsize] at hgrow
  exact Nat.lt_irrefl _ hgrow

end DynPollState

end Perftest
