import Perftest.Lib.Cyclic

namespace Perftest

inductive TestMethod where
  | iterations | duration
deriving DecidableEq, Repr

/-- `fill_count` as `force_dependecies` computes it. -/
def fillCountOf (testType : TestMethod) (iters txDepth cqMod : Nat) : Bool :=
  testType = .iterations &&
    ((txDepth ≤ cqMod && iters % txDepth ≠ 0) || (cqMod < txDepth && iters % cqMod ≠ 0))

/-- The parameters that the send loops read. -/
structure SendConfig where
  testType : TestMethod
  iters : Nat
  txDepth : Nat
  cqMod : Nat
  postList : Nat
  numOfQps : Nat
  fillCount : Bool

namespace SendConfig

variable (c : SendConfig)

/-- Before a post with `scnt = k` the loop takes the signal off the request. -/
def clearsSignal (k : Nat) : Bool :=
  c.postList = 1 && (k % c.cqMod = 0 && 1 < c.cqMod) &&
    !(k + 1 = c.iters && c.testType = .iterations)

/-- After a post, `scnt` being `k` now, the loop asks for a signal on the next request. -/
def asksSignal (k : Nat) : Bool :=
  c.postList = 1 &&
    (k % c.cqMod + 1 = c.cqMod || (c.testType = .iterations && k + 1 = c.iters))

/-- The flags of the requests of a QP at the post with `scnt = k`. -/
def flagsAtPost (k : Nat) (flags : Nat → Bool) : Nat → Bool :=
  if c.clearsSignal k then Function.update flags 0 false else flags

/-- The flags after the post, `scnt` being `k` now. -/
def flagsAfterPost (k : Nat) (flags : Nat → Bool) : Nat → Bool :=
  if c.asksSignal k then Function.update flags 0 true else flags

/-- The requests that the loop takes one completion for. -/
def fill (ccnt : Nat) : Nat :=
  if c.fillCount ∧ c.iters < ccnt + c.cqMod then c.iters - ccnt else c.cqMod

/-- The schedule of the signaled requests: the last of each `cq_mod`, and the last of all. -/
def signaledAt (k : Nat) : Bool :=
  (k + 1) % c.cqMod = 0 || (c.testType = .iterations && k + 1 = c.iters)

/-- How many of the first `d` requests are signaled. -/
def signals (d : Nat) : Nat :=
  d / c.cqMod + if c.testType = .iterations ∧ d = c.iters ∧ d % c.cqMod ≠ 0 then 1 else 0

/-- What `n` completions account for. -/
def accounted (n : Nat) : Nat :=
  if c.testType = .iterations then min (n * c.cqMod) c.iters else n * c.cqMod

/-- The relations among the parameters under which the loop accounts for every request. -/
structure Sound : Prop where
  cqMod_pos : 0 < c.cqMod
  cqMod_le : c.cqMod ≤ c.txDepth
  fillCount_eq : c.fillCount = fillCountOf c.testType c.iters c.txDepth c.cqMod
  postList_pos : 0 < c.postList
  batch : c.postList = 1 ∨
    (c.cqMod ∣ c.postList ∧ (c.testType = .iterations → c.postList ∣ c.iters))

/-- A number of requests that a QP can have posted. -/
def Within (d : Nat) : Prop := c.testType = .iterations → d ≤ c.iters

variable {c} {k d n : Nat}

theorem Sound.fillCount_iff (h : c.Sound) (ht : c.testType = .iterations) :
    c.fillCount = true ↔ c.iters % c.cqMod ≠ 0 := by
  have hle := h.cqMod_le
  rw [h.fillCount_eq]
  unfold fillCountOf
  rcases Nat.lt_or_ge c.cqMod c.txDepth with hlt | hge
  · simp [ht, hlt, Nat.not_le.mpr hlt]
  · have he : c.txDepth = c.cqMod := by omega
    simp [ht, he]

theorem Sound.fillCount_duration (h : c.Sound) (ht : c.testType = .duration) :
    c.fillCount = false := by
  rw [h.fillCount_eq]
  simp [fillCountOf, ht]

theorem signals_zero (h : c.Sound) : c.signals 0 = 0 := by
  have := h.cqMod_pos
  simp [signals]

theorem signals_succ (h : c.Sound) (hd : c.Within (d + 1)) :
    c.signals (d + 1) = c.signals d + if c.signaledAt d then 1 else 0 := by
  unfold signals signaledAt
  have hold : ¬ (c.testType = .iterations ∧ d = c.iters ∧ d % c.cqMod ≠ 0) := by
    rintro ⟨ht, he, -⟩
    have := hd ht
    omega
  rw [if_neg hold]
  rcases Cyclic.succ_cases (k := d) h.cqMod_pos with ⟨hl, hm, hq⟩ | ⟨hl, hm, hq⟩
  · rw [hm, hq]
    by_cases hlast : c.testType = .iterations ∧ d + 1 = c.iters
    · simp [hlast.1, hlast.2]
    · rw [if_neg fun h' => hlast ⟨h'.1, h'.2.1⟩]
      have hf : (decide (c.testType = .iterations) && decide (d + 1 = c.iters)) = false := by
        simpa using hlast
      simp [hf]
  · rw [hm, hq]
    simp

theorem countP_signaledAt (h : c.Sound) (hd : c.Within d) :
    (List.range d).countP c.signaledAt = c.signals d := by
  induction d with
  | zero => simp [signals_zero h]
  | succ d ih =>
    have hd' : c.Within d := fun ht => by have := hd ht; omega
    rw [List.range_succ, List.countP_append, ih hd', signals_succ h hd]
    simp [List.countP_cons]

theorem signals_mul_le (hn : n ≤ c.signals d) :
    n * c.cqMod ≤ d ∨ (c.testType = .iterations ∧ d = c.iters) := by
  unfold signals at hn
  split at hn
  next hl => exact Or.inr ⟨hl.1, hl.2.1⟩
  next =>
    refine Or.inl ?_
    calc n * c.cqMod ≤ d / c.cqMod * c.cqMod := Nat.mul_le_mul_right _ hn
      _ ≤ d := Nat.div_mul_le_self d c.cqMod

/-- Between two signals lie fewer than `cq_mod` requests. -/
theorem sub_lt_of_signals_eq (h : c.Sound) {m : Nat} (hm : m ≤ d) (hd : c.Within d)
    (he : c.signals m = c.signals d) : d - m < c.cqMod := by
  have hpos := h.cqMod_pos
  rcases Nat.eq_or_lt_of_le hm with heq | hlt
  · omega
  · have hend : ¬ (c.testType = .iterations ∧ m = c.iters ∧ m % c.cqMod ≠ 0) := by
      rintro ⟨ht, hi, -⟩
      have := hd ht
      omega
    have hle : d / c.cqMod ≤ m / c.cqMod := by
      calc d / c.cqMod ≤ c.signals d := Nat.le_add_right _ _
        _ = m / c.cqMod := by rw [← he, signals, if_neg hend, Nat.add_zero]
    have hdm := Nat.div_add_mod d c.cqMod
    have hmm := Nat.div_add_mod m c.cqMod
    have hr := Nat.mod_lt d hpos
    have := Nat.mul_le_mul_left c.cqMod hle
    omega

/-- Completions account for no more requests than have completed. -/
theorem accounted_le (hn : n ≤ c.signals d) : c.accounted n ≤ d := by
  unfold accounted
  rcases signals_mul_le hn with hl | ⟨ht, rfl⟩
  · split <;> omega
  · rw [if_pos ht]
    exact Nat.min_le_right _ _

/-- A completion that is still to come lies before the end of the run. -/
theorem mul_lt_of_lt_signals (h : c.Sound) (hd : d ≤ c.iters) (hn : n < c.signals d) :
    n * c.cqMod < c.iters := by
  have hpos := h.cqMod_pos
  unfold signals at hn
  have hdm := Nat.div_add_mod d c.cqMod
  have hle : n * c.cqMod ≤ d / c.cqMod * c.cqMod := by
    by_cases hc : c.testType = .iterations ∧ d = c.iters ∧ d % c.cqMod ≠ 0
    · rw [if_pos hc] at hn
      exact Nat.mul_le_mul_right _ (by omega)
    · rw [if_neg hc] at hn
      exact Nat.mul_le_mul_right _ (by omega)
  rw [Nat.mul_comm (d / c.cqMod)] at hle
  by_cases hc : c.testType = .iterations ∧ d = c.iters ∧ d % c.cqMod ≠ 0
  · omega
  · rw [if_neg hc] at hn
    have hlt := Nat.mul_lt_mul_of_pos_right (show n < d / c.cqMod by omega) hpos
    rw [Nat.mul_comm (d / c.cqMod)] at hlt
    omega

/-- The fill rule of the loop accounts for one more completion. -/
theorem accounted_add_fill (h : c.Sound) (hd : c.Within d) (hn : n < c.signals d) :
    c.accounted n + c.fill (c.accounted n) = c.accounted (n + 1) := by
  unfold fill accounted
  by_cases ht : c.testType = .iterations
  · have hlt := mul_lt_of_lt_signals h (hd ht) hn
    have hmin : min (n * c.cqMod) c.iters = n * c.cqMod := by omega
    simp only [ht, if_true, hmin, h.fillCount_iff ht, Nat.succ_mul]
    split
    next hf => omega
    next hf =>
      by_cases hl : c.iters < n * c.cqMod + c.cqMod
      · have hz : c.iters % c.cqMod = 0 := by
          by_contra hz
          exact hf ⟨hz, hl⟩
        obtain ⟨m, hm⟩ := Nat.dvd_of_mod_eq_zero hz
        rw [hm, Nat.mul_comm c.cqMod] at hlt hl
        have hnm := Nat.lt_of_mul_lt_mul_right hlt
        have := Nat.mul_le_mul_right c.cqMod (Nat.succ_le_of_lt hnm)
        rw [Nat.succ_mul] at this
        omega
      · omega
  · have hdur : c.testType = .duration := by
      cases hc : c.testType with
      | iterations => exact absurd hc ht
      | duration => rfl
    simp [hdur, h.fillCount_duration hdur, Nat.succ_mul]

/-- Once all requests are accounted for, no completion is outstanding. -/
theorem signals_le_of_accounted (h : c.Sound) (ht : c.testType = .iterations) (hd : d ≤ c.iters)
    (hn : c.accounted n = c.iters) : c.signals d ≤ n := by
  by_contra hlt
  have := mul_lt_of_lt_signals h hd (Nat.lt_of_not_le hlt)
  simp only [accounted, ht, if_true] at hn
  omega

theorem lt_accounted_signals (h : c.Sound) (hd : c.Within d) :
    d < c.accounted (c.signals d) + c.cqMod := by
  have hpos := h.cqMod_pos
  have hdm := Nat.div_add_mod d c.cqMod
  have hlt := Nat.mod_lt d hpos
  have hs : d / c.cqMod * c.cqMod ≤ c.signals d * c.cqMod :=
    Nat.mul_le_mul_right _ (Nat.le_add_right _ _)
  rw [Nat.mul_comm (d / c.cqMod)] at hs
  unfold accounted
  split
  next ht =>
    have := hd ht
    omega
  next => omega

theorem accounted_signals_of_dvd (hd : c.Within d) (hm : c.cqMod ∣ d) :
    c.accounted (c.signals d) = d := by
  have hz : d % c.cqMod = 0 := Nat.mod_eq_zero_of_dvd hm
  have hs : c.signals d = d / c.cqMod := by simp [signals, hz]
  rw [hs, accounted, Nat.div_mul_cancel hm]
  split
  next ht => exact Nat.min_eq_left (hd ht)
  next => rfl

/-- The bit of the single request is right for the `k`-th post, unless the loop clears it. -/
def BitOk (c : SendConfig) (k : Nat) (bit : Bool) : Prop :=
  c.Within (k + 1) → c.clearsSignal k = false → bit = c.signaledAt k

theorem signaledAt_of_clears (hk : c.clearsSignal k = true) : c.signaledAt k = false := by
  simp only [clearsSignal, Bool.and_eq_true, decide_eq_true_eq, Bool.not_eq_true',
    Bool.and_eq_false_iff, decide_eq_false_iff_not] at hk
  obtain ⟨⟨-, hm, hc⟩, hl⟩ := hk
  have h1 : (k + 1) % c.cqMod = 1 := by
    rw [Nat.add_mod, hm, Nat.zero_add, Nat.mod_mod, Nat.mod_eq_of_lt hc]
  simp only [signaledAt, h1, Bool.or_eq_false_iff, Bool.and_eq_false_iff, decide_eq_false_iff_not]
  exact ⟨by omega, hl.symm⟩

/-- The bit at the moment of the post. -/
theorem BitOk.posted {bit : Bool} (hb : c.BitOk k bit) (hk : c.Within (k + 1)) :
    (bit && !c.clearsSignal k) = c.signaledAt k := by
  cases hc : c.clearsSignal k with
  | true => simp [signaledAt_of_clears hc]
  | false => simp [hb hk hc]

theorem asksSignal_eq (h : c.Sound) (hp : c.postList = 1) (k : Nat) :
    c.asksSignal k = c.signaledAt k := by
  have hm : (k % c.cqMod + 1 = c.cqMod) ↔ ((k + 1) % c.cqMod = 0) := by
    rcases Cyclic.succ_cases (k := k) h.cqMod_pos with ⟨hl, hm, -⟩ | ⟨hl, hm, -⟩ <;> omega
  simp [asksSignal, signaledAt, hp, hm]

/-- The bit after the post is right for the next request. -/
theorem BitOk.next (h : c.Sound) (hp : c.postList = 1) (k : Nat) :
    c.BitOk (k + 1) (c.signaledAt k || c.asksSignal (k + 1)) := by
  intro hk hc
  rw [asksSignal_eq h hp]
  cases hs : c.signaledAt (k + 1) with
  | true => simp
  | false =>
    simp only [Bool.or_false]
    by_contra hne
    simp only [Bool.not_eq_false, signaledAt, Bool.or_eq_true, Bool.and_eq_true,
      decide_eq_true_eq] at hne
    simp only [signaledAt, Bool.or_eq_false_iff, Bool.and_eq_false_iff,
      decide_eq_false_iff_not] at hs
    rcases hne with hm | ⟨ht, he⟩
    · have h1 : 1 < c.cqMod := by
        have := h.cqMod_pos
        by_contra hle
        have he : c.cqMod = 1 := by omega
        rw [he] at hs
        omega
      simp only [clearsSignal, hp, hm, h1, decide_true, Bool.and_self, Bool.true_and,
        Bool.not_eq_false', Bool.and_eq_true, decide_eq_true_eq] at hc
      rcases hs.2 with h' | h'
      · exact h' hc.2
      · exact h' hc.1
    · have := hk ht
      omega

/-- The flags of a QP before its `k`-th request: one toggled bit, or a fixed batch. -/
def FlagsOk (c : SendConfig) (k : Nat) (flags : Nat → Bool) : Prop :=
  (c.postList = 1 ∧ c.BitOk k (flags 0)) ∨
    (1 < c.postList ∧ c.postList ∣ k ∧ ∀ j, flags j = decide ((j + 1) % c.cqMod = 0))

variable {flags : Nat → Bool}

theorem clearsSignal_batch (hp : 1 < c.postList) (k : Nat) : c.clearsSignal k = false := by
  have : c.postList ≠ 1 := by omega
  simp [clearsSignal, this]

theorem asksSignal_batch (hp : 1 < c.postList) (k : Nat) : c.asksSignal k = false := by
  have : c.postList ≠ 1 := by omega
  simp [asksSignal, this]

theorem Sound.batch_dvd (h : c.Sound) (hp : 1 < c.postList) :
    c.cqMod ∣ c.postList ∧ (c.testType = .iterations → c.postList ∣ c.iters) := by
  rcases h.batch with h1 | hb
  · omega
  · exact hb

/-- The flags that `ctx_set_send_reg_wqes` sets. -/
theorem FlagsOk.init (hs : c.Sound) (htx : c.testType = .iterations → c.txDepth ≤ c.iters) :
    c.FlagsOk 0 fun j => decide ((j + 1) % c.cqMod = 0) := by
  rcases Nat.eq_or_lt_of_le hs.postList_pos with hp | hp
  · refine Or.inl ⟨hp.symm, fun hk _ => ?_⟩
    by_cases hl : c.testType = .iterations ∧ 0 + 1 = c.iters
    · have h1 : c.cqMod = 1 := by
        have := hs.cqMod_pos
        have := hs.cqMod_le
        have := htx hl.1
        omega
      simp [signaledAt, h1]
    · have : (decide (c.testType = .iterations) && decide (0 + 1 = c.iters)) = false := by
        simpa using hl
      simp [signaledAt, this]
  · exact Or.inr ⟨hp, Nat.dvd_zero _, fun j => rfl⟩

theorem flagsAtPost_zero : c.flagsAtPost k flags 0 = (flags 0 && !c.clearsSignal k) := by
  unfold flagsAtPost
  cases c.clearsSignal k <;> simp

/-- An unfinished QP has room for a whole batch before the end of the run. -/
theorem within_add_postList (h : c.Sound) (hf : c.FlagsOk k flags)
    (hu : k < c.iters ∨ c.testType = .duration) : c.Within (k + c.postList) := by
  intro ht
  have hk : k < c.iters := by
    rcases hu with hk | hd
    · exact hk
    · rw [ht] at hd
      cases hd
  rcases hf with ⟨hp, -⟩ | ⟨hp, hdk, -⟩
  · omega
  · obtain ⟨a, rfl⟩ := hdk
    obtain ⟨b, hb⟩ := (h.batch_dvd hp).2 ht
    rw [hb] at hk ⊢
    have hab := Nat.lt_of_mul_lt_mul_left hk
    have := Nat.mul_le_mul_left c.postList (Nat.succ_le_of_lt hab)
    rw [Nat.mul_succ] at this
    exact this

/-- What is posted follows the schedule. -/
theorem FlagsOk.posted (h : c.Sound) (hf : c.FlagsOk k flags) (hk : c.Within (k + c.postList))
    {j : Nat} (hj : j < c.postList) : c.flagsAtPost k flags j = c.signaledAt (k + j) := by
  rcases hf with ⟨hp, hb⟩ | ⟨hp, hdk, hfl⟩
  · have hj0 : j = 0 := by omega
    rw [hj0, flagsAtPost_zero]
    exact hb.posted (hp ▸ hk)
  · have hc := (h.batch_dvd hp).1
    have hm : (k + j + 1) % c.cqMod = (j + 1) % c.cqMod := by
      obtain ⟨a, rfl⟩ := hc.trans hdk
      rw [Nat.add_assoc, Nat.mul_add_mod]
    rw [flagsAtPost, clearsSignal_batch hp, if_neg Bool.false_ne_true, hfl, signaledAt, hm]
    by_cases hl : c.testType = .iterations ∧ k + j + 1 = c.iters
    · have hz : (k + j + 1) % c.cqMod = 0 := by
        rw [hl.2]
        exact Nat.mod_eq_zero_of_dvd (hc.trans ((h.batch_dvd hp).2 hl.1))
      rw [hm] at hz
      simp [hz]
    · have : (decide (c.testType = .iterations) && decide (k + j + 1 = c.iters)) = false := by
        simpa using hl
      simp [this]

theorem FlagsOk.next (h : c.Sound) (hf : c.FlagsOk k flags) (hk : c.Within (k + c.postList)) :
    c.FlagsOk (k + c.postList)
      (c.flagsAfterPost (k + c.postList) (c.flagsAtPost k flags)) := by
  rcases hf with ⟨hp, hb⟩ | ⟨hp, hdk, hfl⟩
  · refine Or.inl ⟨hp, ?_⟩
    rw [hp] at hk ⊢
    have hbit : c.flagsAfterPost (k + 1) (c.flagsAtPost k flags) 0 =
        (c.signaledAt k || c.asksSignal (k + 1)) := by
      rw [← hb.posted hk, ← flagsAtPost_zero]
      unfold flagsAfterPost
      cases c.asksSignal (k + 1) <;> simp
    rw [hbit]
    exact BitOk.next h hp k
  · refine Or.inr ⟨hp, Nat.dvd_add hdk (Nat.dvd_refl _), ?_⟩
    rw [flagsAfterPost, asksSignal_batch hp, flagsAtPost, clearsSignal_batch hp]
    exact hfl

/-- Clearing the bit ahead of a post that does not happen changes nothing. -/
theorem FlagsOk.cleared (hf : c.FlagsOk k flags) : c.FlagsOk k (c.flagsAtPost k flags) := by
  rcases hf with ⟨hp, hb⟩ | ⟨hp, hdk, hfl⟩
  · refine Or.inl ⟨hp, fun hk hc => ?_⟩
    rw [flagsAtPost_zero, hc]
    simpa using hb hk hc
  · refine Or.inr ⟨hp, hdk, ?_⟩
    rw [flagsAtPost, clearsSignal_batch hp]
    exact hfl

end SendConfig

end Perftest
