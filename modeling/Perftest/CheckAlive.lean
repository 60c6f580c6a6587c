import Perftest.Lib.CMachine
import Perftest.Lib.Transition

namespace Perftest

open CMachine Transition

structure CheckAliveData where
  currentTotrcnt : Int
  lastTotrcnt : Int
  gTotalIters : Int
  toExit : Bool
  isEvents : Bool
deriving DecidableEq, Repr

/-- What a call of the handler does: `alarm(60)`, `to_exit`, `exit(FAILURE)`, or nothing. -/
inductive AliveResponse where
  | rearm | toExit | exit | nothing
deriving DecidableEq, Repr

def checkAlive (d : CheckAliveData) : CheckAliveData × AliveResponse :=
  if d.lastTotrcnt < d.currentTotrcnt then ({ d with lastTotrcnt := d.currentTotrcnt }, .rearm)
  else if d.currentTotrcnt = d.lastTotrcnt ∧ d.currentTotrcnt < d.gTotalIters then
    if d.isEvents then (d, .exit) else ({ d with toExit := true }, .toExit)
  else (d, .nothing)

/-- The process around the handler: what the current run of `run_iter_bw_server` or `run_iter_bi` has
to receive and has received, what it had received at the last call, and what the earlier runs left
in the fields that a run starts with. -/
structure WatchState where
  data : CheckAliveData
  running : Bool
  totIters : Nat
  rcnt : Nat
  lastCall : Nat
  leftCurrent : Int
  leftLast : Int
deriving DecidableEq, Repr

/-- A run starts, stores its progress and ends; the signal arrives at any time. -/
inductive WatchAction where
  | start (totIters : Nat) (useEvent : Bool) | receive | finish | alarm
deriving DecidableEq, Repr

namespace WatchState

def initial : WatchState where
  data := ⟨0, 0, 0, false, false⟩
  running := false
  totIters := 0
  rcnt := 0
  lastCall := 0
  leftCurrent := 0
  leftLast := 0

def act (s : WatchState) : WatchAction → WatchState
  | .start totIters useEvent =>
    if s.running then s else
      { s with
        data := { s.data with gTotalIters := asInt totIters, isEvents := useEvent }
        running := true
        totIters := totIters
        rcnt := 0
        lastCall := 0
        leftCurrent := s.data.currentTotrcnt
        leftLast := s.data.lastTotrcnt }
  | .receive =>
    if s.running then
      { s with rcnt := s.rcnt + 1, data := { s.data with currentTotrcnt := asInt (s.rcnt + 1) } }
    else s
  | .finish =>
    if s.running then { s with running := false, data := { s.data with lastTotrcnt := 0 } } else s
  | .alarm => { s with data := (checkAlive s.data).1, lastCall := s.rcnt }

/-- The state behind a sequence of actions of a new process. -/
def after (as : List WatchAction) : WatchState := as.foldl act initial

/-- A call during a run that is short of messages. -/
def Watches (s : WatchState) (a : WatchAction) : Prop :=
  a = .alarm ∧ s.running = true ∧ s.rcnt < s.totIters

/-- The handler re-arms the alarm behind progress since the last call, and flags the exit without. -/
structure AliveLaw (s : WatchState) : Prop where
  progress : s.lastCall < s.rcnt → (checkAlive s.data).2 = .rearm
  stall : s.rcnt = s.lastCall →
    (checkAlive s.data).2 = .toExit ∨ (checkAlive s.data).2 = .exit
  toExit : (checkAlive s.data).1.toExit = true → s.data.toExit = true ∨ s.rcnt = s.lastCall
  never : (checkAlive s.data).2 ≠ .nothing

/-- The messages received, as the handler sees them. -/
def counted (s : WatchState) : Int := if s.rcnt = 0 then s.leftCurrent else asInt s.rcnt

/-- The messages received at the last call, as the handler sees them. -/
def seen (s : WatchState) : Int := if s.lastCall = 0 then s.leftLast else asInt s.lastCall

/-- The counters keep their order as `int` values. -/
structure KeepsOrder (s : WatchState) : Prop where
  progress : s.lastCall < s.rcnt → s.seen < s.counted
  stall : s.rcnt = s.lastCall → s.counted = s.seen ∧ s.counted < asInt s.totIters

/-- What the fields of the handler hold as long as all calls kept to their law. -/
structure Tracks (s : WatchState) : Prop where
  current : s.running = true → s.data.currentTotrcnt = s.counted
  last : s.running = true → s.rcnt < s.totIters → s.data.lastTotrcnt = s.seen
  total : s.running = true → s.data.gTotalIters = asInt s.totIters
  le : s.running = true → s.lastCall ≤ s.rcnt

variable {s : WatchState} {as : List WatchAction}

theorem checkAlive_gTotalIters (d : CheckAliveData) :
    (checkAlive d).1.gTotalIters = d.gTotalIters ∧
      (checkAlive d).1.currentTotrcnt = d.currentTotrcnt := by
  unfold checkAlive
  split
  next => exact ⟨rfl, rfl⟩
  next =>
    split
    next => split <;> exact ⟨rfl, rfl⟩
    next => exact ⟨rfl, rfl⟩

theorem checkAlive_rearm {d : CheckAliveData} :
    (checkAlive d).2 = .rearm ↔ d.lastTotrcnt < d.currentTotrcnt := by
  unfold checkAlive
  split
  next h => simp [h]
  next h =>
    split
    next => split <;> simp [h]
    next => simp [h]

theorem checkAlive_flags {d : CheckAliveData} :
    ((checkAlive d).2 = .toExit ∨ (checkAlive d).2 = .exit) ↔
      d.currentTotrcnt = d.lastTotrcnt ∧ d.currentTotrcnt < d.gTotalIters := by
  unfold checkAlive
  split
  next h =>
    simp only [reduceCtorEq, or_self, false_iff]
    rintro ⟨he, -⟩
    omega
  next h =>
    split
    next h' =>
      obtain ⟨he, hlt⟩ := h'
      split <;> simp [he, he ▸ hlt]
    next h' => simp [h']

/-- The field `last_totrcnt` takes the current count where the alarm is re-armed. -/
theorem checkAlive_lastTotrcnt (d : CheckAliveData) : (checkAlive d).1.lastTotrcnt =
    if d.lastTotrcnt < d.currentTotrcnt then d.currentTotrcnt else d.lastTotrcnt := by
  unfold checkAlive
  split
  next => rfl
  next =>
    split
    next => split <;> rfl
    next => rfl

theorem checkAlive_toExit {d : CheckAliveData} (h : (checkAlive d).1.toExit = true) :
    d.toExit = true ∨ (checkAlive d).2 = .toExit := by
  unfold checkAlive at h ⊢
  split at h
  next => exact Or.inl h
  next h1 =>
    rw [if_neg h1]
    split at h
    next h2 =>
      rw [if_pos h2]
      split at h
      next => exact Or.inl h
      next h3 =>
        rw [if_neg h3]
        exact Or.inr rfl
    next => exact Or.inl h

theorem Tracks.aliveLaw_iff (h : s.Tracks) (hr : s.running = true) (hw : s.rcnt < s.totIters) :
    s.AliveLaw ↔ s.KeepsOrder := by
  have hle := h.le hr
  constructor
  · intro hl
    refine ⟨fun hp => ?_, fun hs => ?_⟩
    · have hlt := checkAlive_rearm.mp (hl.progress hp)
      rw [h.current hr, h.last hr hw] at hlt
      exact hlt
    · have hf := checkAlive_flags.mp (hl.stall hs)
      rw [h.current hr, h.last hr hw, h.total hr] at hf
      exact hf
  · intro ho
    have hprog : s.lastCall < s.rcnt → (checkAlive s.data).2 = .rearm := by
      intro hp
      rw [checkAlive_rearm, h.current hr, h.last hr hw]
      exact ho.progress hp
    have hstall : s.rcnt = s.lastCall →
        (checkAlive s.data).2 = .toExit ∨ (checkAlive s.data).2 = .exit := by
      intro hs
      rw [checkAlive_flags, h.current hr, h.last hr hw, h.total hr]
      exact ho.stall hs
    rcases Nat.lt_or_eq_of_le hle with hlt | heq
    · have hre := hprog hlt
      refine ⟨hprog, hstall, fun hx => ?_, by rw [hre]; decide⟩
      rcases checkAlive_toExit hx with hx | hx
      · exact Or.inl hx
      · rw [hre] at hx
        cases hx
    · refine ⟨hprog, hstall, fun _ => Or.inr heq.symm, ?_⟩
      rcases hstall heq.symm with hx | hx <;> rw [hx] <;> decide

theorem Tracks.initial : WatchState.initial.Tracks :=
  ⟨fun h => (by cases h), fun h => (by cases h), fun h => (by cases h), fun h => (by cases h)⟩

theorem Tracks.start (h : s.Tracks) (totIters : Nat) (useEvent : Bool) :
    (s.act (.start totIters useEvent)).Tracks := by
  unfold act
  dsimp only
  split
  next => exact h
  next => exact ⟨fun _ => rfl, fun _ _ => rfl, fun _ => rfl, fun _ => Nat.le_refl _⟩

theorem Tracks.receive (h : s.Tracks) : (s.act .receive).Tracks := by
  unfold act
  dsimp only
  split
  next hr =>
    refine ⟨fun _ => ?_, fun _ hw => ?_, fun _ => h.total hr, fun _ => ?_⟩
    · exact (if_neg (Nat.succ_ne_zero _)).symm
    · exact h.last hr (Nat.lt_of_succ_lt hw)
    · exact Nat.le_succ_of_le (h.le hr)
  next => exact h

theorem Tracks.finish (h : s.Tracks) : (s.act .finish).Tracks := by
  unfold act
  dsimp only
  split
  next =>
    exact ⟨fun h => (by cases h), fun h => (by cases h), fun h => (by cases h),
      fun h => (by cases h)⟩
  next => exact h

/-- A call that keeps to its law leaves the count of the call in `last_totrcnt`. -/
theorem Tracks.alarm (h : s.Tracks)
    (hk : s.running = true → s.rcnt < s.totIters → s.KeepsOrder) : (s.act .alarm).Tracks := by
  obtain ⟨ht, hc⟩ := checkAlive_gTotalIters s.data
  refine ⟨fun hr => ?_, fun hr hw => ?_, fun hr => ?_, fun _ => Nat.le_refl _⟩
  · exact hc.trans (h.current hr)
  · replace hr : s.running = true := hr
    replace hw : s.rcnt < s.totIters := hw
    have ho := hk hr hw
    show (checkAlive s.data).1.lastTotrcnt = if s.rcnt = 0 then s.leftLast else asInt s.rcnt
    rw [checkAlive_lastTotrcnt, h.current hr, h.last hr hw]
    rcases Nat.lt_or_eq_of_le (h.le hr) with hp | he
    · rw [if_pos (ho.progress hp), if_neg (by omega), counted, if_neg (by omega)]
    · obtain ⟨hs, -⟩ := ho.stall he.symm
      rw [hs, if_neg (lt_irrefl _), seen, he]
  · exact ht.trans (h.total hr)

theorem after_concat (as : List WatchAction) (a : WatchAction) :
    after (as ++ [a]) = (after as).act a := by
  unfold after
  rw [List.foldl_append, List.foldl_cons, List.foldl_nil]

theorem Tracks.after (h : AtEach (fun pre a => (after pre).Watches a → (after pre).KeepsOrder) as) :
    (after as).Tracks := by
  induction as using List.reverseRecOn with
  | nil => exact .initial
  | append_singleton as a ih =>
    obtain ⟨has, ha⟩ := atEach_concat.mp h
    rw [after_concat]
    cases a with
    | start totIters useEvent => exact (ih has).start totIters useEvent
    | receive => exact (ih has).receive
    | finish => exact (ih has).finish
    | alarm => exact (ih has).alarm fun hr hw => ha ⟨rfl, hr, hw⟩

/-- Over all runs of a process the watchdog keeps to its law at every call exactly when the counters
keep their order as `int` values at every call. -/
theorem checkAlive_law_iff (as : List WatchAction) :
    AtEach (fun pre a => (after pre).Watches a → (after pre).AliveLaw) as ↔
      AtEach (fun pre a => (after pre).Watches a → (after pre).KeepsOrder) as := by
  apply atEach_iff
  intro pre a post _ hq
  have ht := Tracks.after hq
  constructor
  · intro h hw
    exact (ht.aliveLaw_iff hw.2.1 hw.2.2).mp (h hw)
  · intro h hw
    exact (ht.aliveLaw_iff hw.2.1 hw.2.2).mpr (h hw)

/-- In a single run of fewer than 2^31 messages the counters keep their order. -/
theorem keepsOrder_of_small (h : s.totIters < 2 ^ 31) (hw : s.rcnt < s.totIters)
    (hc : s.leftCurrent = 0) (hl : s.leftLast = 0) : s.KeepsOrder := by
  have hnat : ∀ n : Nat, n < 2 ^ 31 → (if n = 0 then (0 : Int) else asInt n) = n := by
    intro n hn
    split
    next hz => omega
    next => exact asInt_of_lt hn
  refine ⟨fun hp => ?_, fun hs => ?_⟩
  · rw [seen, counted, hc, hl, hnat _ (by omega), hnat _ (by omega)]
    omega
  · rw [seen, counted, hc, hl, hs, asInt_of_lt h]
    refine ⟨rfl, ?_⟩
    rw [hnat _ (by omega)]
    omega

/-- Messages and calls leave what the run started with. -/
theorem act_left {a : WatchAction} (ha : a = .receive ∨ a = .alarm) :
    (s.act a).leftCurrent = s.leftCurrent ∧ (s.act a).leftLast = s.leftLast ∧
      (s.act a).totIters = s.totIters := by
  rcases ha with rfl | rfl
  · unfold act
    dsimp only
    split <;> exact ⟨rfl, rfl, rfl⟩
  · exact ⟨rfl, rfl, rfl⟩

theorem foldl_left (has : ∀ a ∈ as, a = .receive ∨ a = .alarm) :
    (as.foldl act s).leftCurrent = s.leftCurrent ∧ (as.foldl act s).leftLast = s.leftLast ∧
      (as.foldl act s).totIters = s.totIters := by
  induction as generalizing s with
  | nil => exact ⟨rfl, rfl, rfl⟩
  | cons a as ih =>
    obtain ⟨h1, h2, h3⟩ := act_left (s := s) (has a List.mem_cons_self)
    obtain ⟨h4, h5, h6⟩ := ih (s := s.act a) fun b hb => has b (List.mem_cons_of_mem _ hb)
    exact ⟨h4.trans h1, h5.trans h2, h6.trans h3⟩

/-- The first run of a process with fewer than 2^31 messages keeps the order at every call. -/
theorem firstRun_keepsOrder {totIters : Nat} {useEvent : Bool} (ht : totIters < 2 ^ 31)
    (has : ∀ a ∈ as, a = .receive ∨ a = .alarm) :
    AtEach (fun pre a => (after pre).Watches a → (after pre).KeepsOrder)
      (.start totIters useEvent :: as) := by
  intro pre a post he hw
  cases pre with
  | nil =>
    obtain ⟨rfl, hr, -⟩ := hw
    cases hr
  | cons b pre =>
    obtain ⟨rfl, rfl⟩ := List.cons.inj he
    have hpre : ∀ c ∈ pre, c = .receive ∨ c = .alarm := fun c hc =>
      has c (List.mem_append_left _ hc)
    obtain ⟨h1, h2, h3⟩ := foldl_left (s := initial.act (.start totIters useEvent)) hpre
    have hn : (after (.start totIters useEvent :: pre)).totIters < 2 ^ 31 := lt_of_eq_of_lt h3 ht
    exact keepsOrder_of_small hn hw.2.2 h1 h2

/-- The first call of a run of 2^31 messages finds none, and does nothing. -/
theorem halfRange_unwatched :
    ¬ AtEach (fun pre a => (after pre).Watches a → (after pre).AliveLaw)
      [.start (2 ^ 31) false, .alarm] := by
  intro h
  have hlaw := (h [.start (2 ^ 31) false] .alarm [] rfl) ⟨rfl, rfl, by decide⟩
  exact hlaw.never (by decide)

end WatchState

end Perftest
