import Perftest.HostLifecycle

namespace Perftest

/-- What the validators have counted. -/
def totalStats (vs : List HostValidatorCtx) : ThreadStats := (vs.map (·.stats)).sum

def handles (vs : List HostValidatorCtx) : List Nat := vs.map (·.thread)

section Loops

variable {vs vs' : List HostValidatorCtx} {h h' : HostThreads}

/-- The counters `vs'`, `h'` are `vs`, `h` and the work of threads. -/
def Worked (vs vs' : List HostValidatorCtx) (h h' : HostThreads) : Prop :=
  ∃ d e, totalStats vs' = totalStats vs + d ∧ h'.work = h.work + d ∧
    h'.errorsFound = h.errorsFound + e ∧ h'.errors = h.errors + e

theorem Worked.refl (vs : List HostValidatorCtx) (h : HostThreads) : Worked vs vs h h :=
  ⟨0, 0, (add_zero _).symm, (add_zero _).symm, rfl, rfl⟩

theorem Worked.cons {v v' : HostValidatorCtx} {w : ThreadWork} (hv : v'.stats = v.stats + w.stats)
    (hw : Worked vs vs' (h.addWork w) h') : Worked (v :: vs) (v' :: vs') h h' := by
  obtain ⟨d, e, ht, hk, hf, he⟩ := hw
  refine ⟨w.stats + d, w.errors + e, ?_, ?_, ?_, ?_⟩
  · simp only [totalStats, List.map_cons, List.sum_cons] at ht ⊢
    rw [ht, hv, add_assoc, add_assoc, add_left_comm w.stats]
  · rw [hk]
    exact add_assoc _ _ _
  · rw [hf]
    exact Nat.add_assoc _ _ _
  · rw [he]
    exact Nat.add_assoc _ _ _

theorem Worked.append (us : List HostValidatorCtx) (hw : Worked vs vs' h h') :
    Worked (vs ++ us) (vs' ++ us) h h' := by
  obtain ⟨d, e, ht, hk, hf, he⟩ := hw
  refine ⟨d, e, ?_, hk, hf, he⟩
  simp only [totalStats, List.map_append, List.sum_append] at ht ⊢
  rw [ht, add_right_comm]

/-- The handles `ts` of live threads were joined, each once. -/
structure JoinedAll (ts : List Nat) (h h' : HostThreads) : Prop where
  joined : h'.joined = ts.reverse ++ h.joined
  created : h'.created = h.created
  running : h'.running = h.running - ts.length

theorem pthreadJoin_live {v : HostValidatorCtx} (w : ThreadWork) (hl : h.Live v.thread) :
    pthreadJoin w v h = (v.addWork w,
      { h.addWork w with joined := v.thread :: h.joined, running := h.running - 1 }) := if_pos hl

/-- After the first join the other handles are still of live threads. -/
theorem live_after_join {v : HostValidatorCtx} (w : ThreadWork) (hn : (handles (v :: vs)).Nodup)
    (hl : ∀ u ∈ v :: vs, h.Live u.thread) :
    ∀ u ∈ vs, HostThreads.Live
      { h.addWork w with joined := v.thread :: h.joined, running := h.running - 1 } u.thread := by
  intro u hu
  obtain ⟨h1, hc, hj⟩ := hl u (List.mem_cons_of_mem _ hu)
  refine ⟨h1, hc, List.not_mem_cons_of_ne_of_not_mem ?_ hj⟩
  intro he
  have hm : u.thread ∈ handles vs := List.mem_map_of_mem hu
  rw [he] at hm
  exact (List.nodup_cons.mp hn).1 hm

theorem JoinedAll.cons {v : HostValidatorCtx} {w : ThreadWork} {ts : List Nat}
    (hj : JoinedAll ts
      { h.addWork w with joined := v.thread :: h.joined, running := h.running - 1 } h') :
    JoinedAll (v.thread :: ts) h h' := by
  refine ⟨?_, hj.created, ?_⟩
  · rw [hj.joined]
    simp
  · rw [hj.running, List.length_cons]
    show h.running - 1 - ts.length = _
    omega

theorem joinThreads_idle (w : Nat → ThreadWork) (i : Nat) (hz : ∀ v ∈ vs, v.thread = 0) :
    joinThreads w i vs h = (vs, h) := by
  induction vs generalizing i with
  | nil => rfl
  | cons v vs ih =>
    unfold joinThreads
    rw [if_neg (by simpa using hz v List.mem_cons_self),
      ih (i + 1) fun u hu => hz u (List.mem_cons_of_mem _ hu)]

theorem joinThreads_live (w : Nat → ThreadWork) (i : Nat) (hn : (handles vs).Nodup)
    (hl : ∀ v ∈ vs, h.Live v.thread) :
    JoinedAll (handles vs) h (joinThreads w i vs h).2 ∧
      Worked vs (joinThreads w i vs h).1 h (joinThreads w i vs h).2 ∧
      ∀ v ∈ (joinThreads w i vs h).1, v.thread = 0 := by
  induction vs generalizing i h with
  | nil => exact ⟨⟨rfl, rfl, rfl⟩, .refl _ _, by simp [joinThreads]⟩
  | cons v vs ih =>
    have hlv := hl v List.mem_cons_self
    obtain ⟨hj, hw, hz⟩ := ih (i + 1) (List.nodup_cons.mp hn).2 (live_after_join (w i) hn hl)
    have hz' : v.thread ≠ 0 := by
      have := hlv.1
      omega
    unfold joinThreads
    simp only [ne_eq, hz', not_false_eq_true, if_true, pthreadJoin_live (w i) hlv]
    refine ⟨hj.cons, .cons rfl hw, ?_⟩
    intro u hu
    rcases List.mem_cons.mp hu with rfl | hu
    · rfl
    · exact hz u hu

theorem joinCreated_live (w : Nat → ThreadWork) (n i : Nat) (hle : n ≤ vs.length)
    (hn : (handles (vs.take n)).Nodup) (hl : ∀ v ∈ vs.take n, h.Live v.thread) :
    JoinedAll (handles (vs.take n)) h (joinCreated w n i vs h).2 ∧
      Worked vs (joinCreated w n i vs h).1 h (joinCreated w n i vs h).2 := by
  induction n generalizing i h vs with
  | zero => exact ⟨⟨rfl, rfl, rfl⟩, .refl _ _⟩
  | succ n ih =>
    cases vs with
    | nil => simp at hle
    | cons v vs =>
      rw [List.take_succ_cons] at hn hl ⊢
      have hlv := hl v List.mem_cons_self
      obtain ⟨hj, hw⟩ := ih (i + 1) (by simpa using hle) (List.nodup_cons.mp hn).2
        (live_after_join (w i) hn hl)
      unfold joinCreated
      simp only [pthreadJoin_live (w i) hlv]
      exact ⟨hj.cons, .cons rfl hw⟩

/-- What the creating loop leaves: the first `k` validators have new threads. -/
structure CreatedFirst (k : Nat) (vs vs' : List HostValidatorCtx) (h h' : HostThreads) : Prop where
  le : k ≤ vs.length
  made : handles (vs'.take k) = List.range' (h.created + 1) k
  stats : vs'.map (·.stats) = vs.map (·.stats)
  threads : h' = { h with created := h.created + k, running := h.running + k }

theorem CreatedFirst.cons {k : Nat} {v : HostValidatorCtx}
    (hc : CreatedFirst k vs vs' { h with created := h.created + 1, running := h.running + 1 } h') :
    CreatedFirst (k + 1) (v :: vs) ({ v with thread := h.created + 1 } :: vs') h h' := by
  refine ⟨?_, ?_, ?_, ?_⟩
  · rw [List.length_cons]
    exact Nat.succ_le_succ hc.le
  · have := hc.made
    unfold handles at this ⊢
    rw [List.take_succ_cons, List.map_cons, List.range'_succ, this]
  · rw [List.map_cons, List.map_cons, hc.stats]
  · rw [hc.threads]
    simp only [HostThreads.mk.injEq, and_true, true_and]
    exact ⟨by omega, by omega⟩

theorem createThreads_spec (failure : Nat → Option Nat) (i : Nat) (vs : List HostValidatorCtx)
    (h : HostThreads) :
    ((createThreads failure i vs h).2.2 = none ∧
      CreatedFirst vs.length vs (createThreads failure i vs h).1 h
        (createThreads failure i vs h).2.1) ∨
    ∃ k, (createThreads failure i vs h).2.2 = some (i + k) ∧ k < vs.length ∧
      CreatedFirst k vs (createThreads failure i vs h).1 h
        (createThreads failure i vs h).2.1 := by
  induction vs generalizing i h with
  | nil => exact .inl ⟨rfl, le_rfl, rfl, rfl, rfl⟩
  | cons v vs ih =>
    unfold createThreads
    split
    next g hg => exact .inr ⟨0, rfl, by simp, by simp, rfl, rfl, rfl⟩
    next hg =>
      rcases ih (i + 1) { h with created := h.created + 1, running := h.running + 1 } with
        ⟨hr, hc⟩ | ⟨k, hr, hk, hc⟩
      · exact .inl ⟨hr, hc.cons⟩
      · refine .inr ⟨k + 1, ?_, by simpa using hk, hc.cons⟩
        rw [hr]
        congr 1
        omega

theorem createThreads_length (failure : Nat → Option Nat) (i : Nat) (vs : List HostValidatorCtx)
    (h : HostThreads) : (createThreads failure i vs h).1.length = vs.length := by
  rcases createThreads_spec failure i vs h with ⟨-, hc⟩ | ⟨k, -, -, hc⟩
  · simpa using congrArg List.length hc.stats
  · simpa using congrArg List.length hc.stats

theorem mem_range_iff {t c n : Nat} : t ∈ List.range' (c + 1) n ↔ c + 1 ≤ t ∧ t ≤ c + n := by
  rw [List.mem_range'_1]
  omega

/-- The threads that the creating loop made are live. -/
theorem CreatedFirst.live {k : Nat} (hc : CreatedFirst k vs vs' h h') (hr : ∀ t ∈ h.joined, 1 ≤ t ∧ t ≤ h.created) :
    ∀ v ∈ vs'.take k, h'.Live v.thread := by
  intro v hv
  have hm : v.thread ∈ handles (vs'.take k) := List.mem_map_of_mem hv
  rw [hc.made, mem_range_iff] at hm
  rw [hc.threads]
  refine ⟨by omega, hm.2, ?_⟩
  intro hj
  have := (hr _ hj).2
  omega

theorem totalStats_modify {i : Nat} (w : ThreadWork) (hi : i < vs.length) :
    totalStats (vs.modify i (·.addWork w)) = totalStats vs + w.stats := by
  induction vs generalizing i with
  | nil => simp at hi
  | cons v vs ih =>
    unfold totalStats at ih ⊢
    cases i with
    | zero =>
      simp only [List.modify_zero_cons, List.map_cons, List.sum_cons, HostValidatorCtx.addWork]
      exact add_right_comm _ _ _
    | succ i =>
      simp only [List.modify_succ_cons, List.map_cons, List.sum_cons]
      rw [ih (by simpa using hi), add_assoc]

theorem handles_modify {i : Nat} (w : ThreadWork) :
    handles (vs.modify i (·.addWork w)) = handles vs := by
  unfold handles
  apply List.ext_getElem?
  intro j
  rw [List.getElem?_map, List.getElem?_modify, List.getElem?_map]
  cases vs[j]? with
  | none => rfl
  | some v =>
    by_cases hij : i = j
    · simp [hij, HostValidatorCtx.addWork]
    · simp [hij]

end Loops

namespace HostLifecycle

variable {s t : HostLifecycle}

/-- The invariant of the calls that meet `joinable`. -/
structure Inv (s : HostLifecycle) : Prop where
  nodup : s.threads.joined.Nodup
  range : ∀ t ∈ s.threads.joined, 1 ≤ t ∧ t ≤ s.threads.created
  known : ∀ t, 1 ≤ t → t ≤ s.threads.created →
    t ∈ s.threads.joined ∨ s.phase = .started ∧ t ∈ handles s.ctx.validators
  free : s.ctx.initialized = false → s.ctx.validators = [] ∧ s.phase = .idle
  total : s.ctx.initialized = true → totalStats s.ctx.validators = s.threads.work
  errors : s.threads.errorsFound = s.threads.errors
  idle : s.phase = .idle → ∀ v ∈ s.ctx.validators, v.thread = 0
  stopped : s.phase ≠ .started → s.threads.running = 0
  started : s.phase = .started → (handles s.ctx.validators).Nodup ∧
    (∀ v ∈ s.ctx.validators, s.threads.Live v.thread) ∧
    s.threads.running = s.ctx.validators.length
  reports : ∀ r ∈ s.reports, r.1.stats = r.2.1 ∧ r.1.errorsFound = r.2.2

theorem Inv.zero : Inv .zero := by
  refine ⟨List.nodup_nil, by simp [HostLifecycle.zero], ?_, fun _ => ⟨rfl, rfl⟩, ?_, rfl, ?_,
    fun _ => rfl, ?_, by simp [HostLifecycle.zero]⟩
  · intro t h1 h0
    have : t ≤ 0 := h0
    omega
  · intro h
    cases h
  · simp [HostLifecycle.zero]
  · intro h
    cases h

/-- Where no validator runs, every created thread was joined. -/
theorem Inv.joined_of_running (h : Inv s) (hr : s.threads.running = 0) {t : Nat} (h1 : 1 ≤ t)
    (hc : t ≤ s.threads.created) : t ∈ s.threads.joined := by
  rcases h.known t h1 hc with hj | ⟨hp, hm⟩
  · exact hj
  · have hlen := (h.started hp).2.2
    rw [hr] at hlen
    rw [List.eq_nil_of_length_eq_zero hlen.symm] at hm
    simp [handles] at hm

theorem distributeToValidators_spec {cfg : ValidationConfig} {n : Nat} {allocs : InitAllocs}
    {vs : List HostValidatorCtx} (h : distributeToValidators cfg n allocs = some vs) :
    (∀ v ∈ vs, v.thread = 0) ∧ totalStats vs = 0 := by
  unfold distributeToValidators at h
  split at h
  next =>
    obtain rfl := Option.some.inj h
    refine ⟨by simp, List.sum_eq_zero ?_⟩
    simp
  next => simp at h

/-- What `memset` leaves of a stopped validator. -/
theorem Inv.init (h : Inv s) (cfg : ValidationConfig) (cores : Nat) (allocs : InitAllocs) :
    Inv (hostValidationInit cfg cores allocs s).1 := by
  unfold hostValidationInit
  split
  next => exact h
  next hi =>
    have hp : s.phase = .idle := (h.free (by simpa using hi)).2
    have hr := h.stopped (by simp [hp])
    split
    next => exact h
    next =>
      split
      next => exact h
      next =>
        have hz : Inv { s with
            ctx := { config := cfg, validators := [], stopFlag := false, initialized := false }
            threads := { s.threads with
              running := 0, errorsFound := 0, error := NO_ERROR, work := 0, errors := 0 }
            phase := .idle } :=
          ⟨h.nodup, h.range, fun t h1 hc => .inl (h.joined_of_running hr h1 hc),
            fun _ => ⟨rfl, rfl⟩, fun hf => (by cases hf), rfl, by simp, fun _ => rfl,
            fun hf => (by cases hf), h.reports⟩
        dsimp only
        split
        next => exact hz
        next =>
          split
          next => exact hz
          next vs hvs =>
            obtain ⟨ht, hs⟩ := distributeToValidators_spec hvs
            exact ⟨hz.nodup, hz.range, fun t h1 hc => .inl (h.joined_of_running hr h1 hc),
              fun hf => (by cases hf), fun _ => hs, rfl, fun _ => ht, fun _ => rfl,
              fun hf => (by cases hf), h.reports⟩

theorem Inv.start_ok (h : Inv s) (hi : s.ctx.initialized = true) (hr : s.threads.running = 0)
    {vs : List HostValidatorCtx} {hth : HostThreads} (hlen : vs.length = s.ctx.validators.length)
    (hc : CreatedFirst s.ctx.validators.length s.ctx.validators vs s.threads hth) (flag : Bool) :
    Inv { s with
      ctx := { s.ctx with validators := vs, stopFlag := flag }
      threads := hth
      phase := .started } := by
  have hlive := hc.live h.range
  have hhand := hc.made
  rw [← hlen, List.take_length] at hlive hhand
  have hthr := hc.threads
  refine ⟨hthr ▸ h.nodup, ?_, ?_, ?_, ?_, ?_, ?_, ?_, ?_, h.reports⟩
  · intro t ht
    rw [hthr] at ht ⊢
    have := h.range t ht
    exact ⟨this.1, Nat.le_add_right_of_le this.2⟩
  · intro t h1 hct
    rw [hthr] at hct ⊢
    by_cases hold : t ≤ s.threads.created
    · exact .inl (h.joined_of_running hr h1 hold)
    · refine .inr ⟨rfl, ?_⟩
      show t ∈ handles vs
      rw [hhand, mem_range_iff]
      dsimp only at hct
      omega
  · intro hf
    exact absurd (hi.symm.trans hf) (by simp)
  · intro _
    rw [hthr]
    show totalStats vs = s.threads.work
    rw [← h.total hi]
    exact congrArg List.sum hc.stats
  · rw [hthr]
    exact h.errors
  · intro hf
    cases hf
  · intro hf
    exact absurd rfl hf
  · intro _
    refine ⟨?_, hlive, ?_⟩
    · show (handles vs).Nodup
      rw [hhand]
      exact List.nodup_range'
    · rw [hthr]
      show s.threads.running + s.ctx.validators.length = vs.length
      omega

theorem Inv.start_failed (h : Inv s) (hi : s.ctx.initialized = true) (hr : s.threads.running = 0)
    {k : Nat} {vs : List HostValidatorCtx} {hth : HostThreads}
    (hlen : vs.length = s.ctx.validators.length)
    (hc : CreatedFirst k s.ctx.validators vs s.threads hth) (w : Nat → ThreadWork) (flag : Bool)
    {phase : StartPhase} (hs : phase ≠ .started)
    (hz : phase = .idle → ∀ v ∈ (joinCreated w k 0 vs hth).1, v.thread = 0) :
    Inv { s with
      ctx := { s.ctx with validators := (joinCreated w k 0 vs hth).1, stopFlag := flag }
      threads := (joinCreated w k 0 vs hth).2
      phase := phase } := by
  have hnd : (handles (vs.take k)).Nodup := by
    rw [hc.made]
    exact List.nodup_range'
  obtain ⟨hj, d, e, htot, hwork, hef, her⟩ :=
    joinCreated_live w k 0 (hlen ▸ hc.le) hnd (hc.live h.range)
  have hthr := hc.threads
  have hcreated : (joinCreated w k 0 vs hth).2.created = s.threads.created + k := by
    rw [hj.created, hthr]
  have hmem : ∀ t, t ∈ (joinCreated w k 0 vs hth).2.joined ↔
      s.threads.created + 1 ≤ t ∧ t ≤ s.threads.created + k ∨ t ∈ s.threads.joined := by
    intro t
    rw [hj.joined, List.mem_append, List.mem_reverse, hc.made, mem_range_iff, hthr]
  refine ⟨?_, ?_, ?_, ?_, ?_, ?_, hz, ?_, fun hp => absurd hp hs, h.reports⟩
  · show (joinCreated w k 0 vs hth).2.joined.Nodup
    rw [hj.joined, hc.made, hthr]
    refine List.nodup_append.mpr ⟨List.nodup_reverse.mpr List.nodup_range', h.nodup, ?_⟩
    intro a ha b hb
    rw [List.mem_reverse, mem_range_iff] at ha
    have := (h.range b hb).2
    omega
  · intro t ht
    show 1 ≤ t ∧ t ≤ (joinCreated w k 0 vs hth).2.created
    rw [hcreated]
    rcases (hmem t).mp ht with ht | ht
    · omega
    · have := h.range t ht
      omega
  · intro t h1 hct
    rw [hcreated] at hct
    refine .inl ((hmem t).mpr ?_)
    by_cases hold : t ≤ s.threads.created
    · exact .inr (h.joined_of_running hr h1 hold)
    · exact .inl ⟨by omega, hct⟩
  · intro hf
    exact absurd (hi.symm.trans hf) (by simp)
  · intro _
    show totalStats (joinCreated w k 0 vs hth).1 = (joinCreated w k 0 vs hth).2.work
    rw [htot, hwork, hthr]
    show totalStats vs + d = s.threads.work + d
    rw [← h.total hi]
    exact congrArg (List.sum · + d) hc.stats
  · show (joinCreated w k 0 vs hth).2.errorsFound = (joinCreated w k 0 vs hth).2.errors
    rw [hef, her, hthr]
    exact congrArg (· + e) h.errors
  · intro _
    show (joinCreated w k 0 vs hth).2.running = 0
    rw [hj.running, hc.made, List.length_range', hthr]
    show s.threads.running + k - k = 0
    omega

theorem Inv.start (h : Inv s) (failure : Nat → Option Nat) (w : Nat → ThreadWork) :
    Inv (hostValidationStart failure w s) := by
  unfold hostValidationStart
  split
  next => exact h
  next hg =>
    obtain ⟨hi, hr⟩ := not_or.mp hg
    have hi : s.ctx.initialized = true := by simpa using hi
    have hr : s.threads.running = 0 := by omega
    have hlen := createThreads_length failure 0 s.ctx.validators s.threads
    have hspec := createThreads_spec failure 0 s.ctx.validators s.threads
    have hfirst : ∀ g, failure 0 = some g → (∀ v ∈ s.ctx.validators, v.thread = 0) →
        g = 0 → ∀ v ∈ (createThreads failure 0 s.ctx.validators s.threads).1, v.thread = 0 := by
      intro g hf hall hg v hv
      cases hvs : s.ctx.validators with
      | nil => simp [hvs, createThreads] at hv
      | cons u us =>
        rw [hvs] at hall
        rw [hvs, createThreads, hf] at hv
        rcases List.mem_cons.mp hv with rfl | hv
        · exact hg
        · exact hall v (List.mem_cons_of_mem _ hv)
    generalize createThreads failure 0 s.ctx.validators s.threads = r at *
    obtain ⟨vs, hth, o⟩ := r
    rcases hspec with ⟨ho, hc⟩ | ⟨k, ho, hk, hc⟩
    · dsimp only at ho
      subst ho
      exact h.start_ok hi hr hlen hc false
    · simp only [Nat.zero_add] at ho
      subst ho
      refine h.start_failed hi hr hlen hc w true ?_ ?_
      · split
        next =>
          intro hp
          have := (h.started hp).2.2
          omega
        next => simp
      · intro hp
        split at hp
        next hz =>
          obtain ⟨rfl, hf⟩ := hz
          exact hfirst 0 hf (h.idle hp) rfl
        next => cases hp

/-- What the joining loop leaves of validators that run or are idle. -/
theorem Inv.joinThreads (h : Inv s) (w : Nat → ThreadWork) (hp : s.phase ≠ .failed)
    (hi : s.ctx.initialized = true) :
    let r := Perftest.joinThreads w 0 s.ctx.validators s.threads
    r.2.joined.Nodup ∧ r.2.created = s.threads.created ∧
      (∀ t, t ∈ r.2.joined ↔ 1 ≤ t ∧ t ≤ s.threads.created) ∧ r.2.running = 0 ∧
      (∀ v ∈ r.1, v.thread = 0) ∧ totalStats r.1 = r.2.work ∧ r.2.errorsFound = r.2.errors := by
  intro r
  cases hph : s.phase with
  | failed => exact absurd hph hp
  | idle =>
    have hr := h.stopped (by simp [hph])
    have hrs : r = (s.ctx.validators, s.threads) := joinThreads_idle w 0 (h.idle hph)
    rw [hrs]
    refine ⟨h.nodup, rfl, fun t => ⟨h.range t, fun ht => ?_⟩, hr, h.idle hph, h.total hi,
      h.errors⟩
    exact h.joined_of_running hr ht.1 ht.2
  | started =>
    obtain ⟨hn, hl, hrun⟩ := h.started hph
    obtain ⟨hj, ⟨d, e, htot, hwork, hef, her⟩, hz⟩ := joinThreads_live w 0 hn hl
    refine ⟨?_, hj.created, fun t => ?_, ?_, hz, ?_, ?_⟩
    · show (Perftest.joinThreads w 0 s.ctx.validators s.threads).2.joined.Nodup
      rw [hj.joined]
      refine List.nodup_append.mpr ⟨List.nodup_reverse.mpr hn, h.nodup, ?_⟩
      intro a ha b hb hab
      subst hab
      obtain ⟨v, hv, rfl⟩ := List.mem_map.mp (List.mem_reverse.mp ha)
      exact (hl v hv).2.2 hb
    · show t ∈ (Perftest.joinThreads w 0 s.ctx.validators s.threads).2.joined ↔ _
      rw [hj.joined, List.mem_append, List.mem_reverse]
      constructor
      · rintro (ht | ht)
        · obtain ⟨v, hv, rfl⟩ := List.mem_map.mp ht
          exact ⟨(hl v hv).1, (hl v hv).2.1⟩
        · exact h.range t ht
      · rintro ⟨h1, hc⟩
        rcases h.known t h1 hc with hk | ⟨-, hk⟩
        · exact .inr hk
        · exact .inl hk
    · show (Perftest.joinThreads w 0 s.ctx.validators s.threads).2.running = 0
      rw [hj.running, hrun, handles, List.length_map, Nat.sub_self]
    · exact htot.trans ((congrArg (· + d) (h.total hi)).trans hwork.symm)
    · exact hef.trans ((congrArg (· + e) h.errors).trans her.symm)

theorem Inv.stop (h : Inv s) {result : Bool} (w : Nat → ThreadWork)
    (hp : result = true → s.phase ≠ .failed) : Inv (hostValidationStop result w s) := by
  unfold hostValidationStop
  split
  next => exact h
  next hg =>
    obtain ⟨hi, hres⟩ := not_or.mp hg
    have hi : s.ctx.initialized = true := by simpa using hi
    obtain ⟨hn, hc, hm, hr, hz, htot, herr⟩ := h.joinThreads w (hp (by simpa using hres)) hi
    refine ⟨hn, fun t ht => hc ▸ (hm t).mp ht, fun t h1 ht => .inl ((hm t).mpr ⟨h1, hc ▸ ht⟩), ?_,
      fun _ => htot, herr, fun _ => hz, fun _ => hr, fun hf => (by cases hf), ?_⟩
    · intro hf
      exact absurd (hi.symm.trans hf) (by simp)
    · intro r hr
      rcases List.mem_cons.mp hr with rfl | hr
      · exact ⟨htot, herr⟩
      · exact h.reports r hr

theorem Inv.destroy (h : Inv s) (w : Nat → ThreadWork) (hp : s.phase ≠ .failed) :
    Inv (hostValidationDestroy w s) := by
  unfold hostValidationDestroy
  split
  next => exact h
  next hi =>
    have hi : s.ctx.initialized = true := by simpa using hi
    obtain ⟨hn, hc, hm, hr, -, -, herr⟩ := h.joinThreads w hp hi
    exact ⟨hn, fun t ht => hc ▸ (hm t).mp ht, fun t h1 ht => .inl ((hm t).mpr ⟨h1, hc ▸ ht⟩),
      fun _ => ⟨rfl, rfl⟩, fun hf => (by cases hf), herr, by simp, fun _ => hr,
      fun hf => (by cases hf), h.reports⟩

theorem Inv.work (h : Inv s) {i : Nat} {w : ThreadWork} (ha : act (.work i w) s = some t) :
    Inv t := by
  simp only [act] at ha
  split at ha
  next hv =>
    obtain rfl := Option.some.inj ha
    obtain ⟨v, hv, -⟩ := (Option.any_eq_true _ _).mp hv
    obtain ⟨hlt, -⟩ := List.getElem?_eq_some_iff.mp hv
    have hne : s.ctx.validators ≠ [] := List.ne_nil_of_length_pos (by omega)
    have hi : s.ctx.initialized = true := by
      by_contra hf
      exact hne (h.free (by simpa using hf)).1
    have hh : handles (s.ctx.validators.modify i (·.addWork w)) = handles s.ctx.validators :=
      handles_modify w
    have hmem : ∀ u ∈ s.ctx.validators.modify i (·.addWork w),
        ∃ u' ∈ s.ctx.validators, u'.thread = u.thread := by
      intro u hu
      have : u.thread ∈ handles s.ctx.validators := hh ▸ List.mem_map_of_mem hu
      exact List.mem_map.mp this
    refine ⟨h.nodup, h.range, fun t h1 hc => hh ▸ h.known t h1 hc, ?_, ?_, ?_, ?_, h.stopped, ?_,
      h.reports⟩
    · intro hf
      exact absurd (hi.symm.trans hf) (by simp)
    · intro _
      show totalStats (s.ctx.validators.modify i _) = s.threads.work + w.stats
      rw [totalStats_modify w hlt, h.total hi]
    · exact congrArg (· + w.errors) h.errors
    · intro hp u hu
      obtain ⟨u', hu', he⟩ := hmem u hu
      exact he ▸ h.idle hp u' hu'
    · intro hp
      obtain ⟨hn, hl, hr⟩ := h.started hp
      refine ⟨hh ▸ hn, fun u hu => ?_, ?_⟩
      · obtain ⟨u', hu', he⟩ := hmem u hu
        exact he ▸ hl u' hu'
      · rw [List.length_modify]
        exact hr
  next => simp at ha

theorem Inv.of_reachable (h : JoinableReachable s) : Inv s := by
  refine Transition.Reachable.invariant ?_ ?_ h
  · rintro s rfl
    exact .zero
  · intro s t hi hst
    obtain ⟨a, ha⟩ := hst
    obtain ⟨hj, ha⟩ := Transition.guarded_eq_some.mp ha
    cases a with
    | init cfg cores allocs => exact Option.some.inj ha ▸ hi.init cfg cores allocs
    | start failure w => exact Option.some.inj ha ▸ hi.start failure w
    | stop result w =>
      refine Option.some.inj ha ▸ hi.stop w fun hr => ?_
      simpa [LifecycleCall.joinable, hr] using hj
    | destroy w => exact Option.some.inj ha ▸ hi.destroy w (by simpa [LifecycleCall.joinable] using hj)
    | work i w => exact hi.work ha

theorem init_clean (hi : s.ctx.initialized = false) {cfg : ValidationConfig} {allocs : InitAllocs}
    (cores : Nat) (h : InitAccepted cfg allocs) :
    (hostValidationInit cfg cores allocs s).2 = true ∧
      (hostValidationInit cfg cores allocs s).1.ctx =
        (hostValidationInit cfg cores allocs .zero).1.ctx ∧
      (hostValidationInit cfg cores allocs s).1.threads.running = 0 ∧
      (hostValidationInit cfg cores allocs s).1.threads.errorsFound = 0 := by
  obtain ⟨hb, h1, hle, hv, hlo, hmc, hom⟩ := h
  have hrange : ¬ (cfg.chunksPerQp = 0 ∨ VALIDATION_MAX_CHUNKS_PER_QP < cfg.chunksPerQp) := by
    omega
  have hall : ∀ n, (List.range n).all allocs.ownMarkers = true := by
    simpa using fun _ i _ => hom i
  simp [hostValidationInit, hi, hb, hrange, hv, distributeToValidators, hlo, hmc, hall,
    HostLifecycle.zero]

theorem Inv.ok (h : Inv s) : LifecycleOk s := by
  refine ⟨h.nodup, h.range, fun hp t h1 hc => ?_, fun hi => ?_, h.reports,
    fun hi cfg cores allocs ha => init_clean hi cores ha⟩
  · exact h.joined_of_running (h.stopped hp) h1 hc
  · simp [(h.free hi).2]

end HostLifecycle

/-- Over every sequence of calls with every failure of the system, where no stop or destroy follows
a start that gave up between two validators, each thread is joined exactly once. -/
theorem hostValidation_lifecycle (s : HostLifecycle) (h : s.JoinableReachable) : LifecycleOk s :=
  (HostLifecycle.Inv.of_reachable h).ok

/-- One queue pair with two chunks on eight cores: two validators. -/
def twoValidators : LifecycleCall :=
  .init ⟨4096, 0, 64, 8, 1, 1, 2, .write⟩ 8 ⟨true, true, true, fun _ => true⟩

def noWork (_ : Nat) : ThreadWork := ⟨0, 0, none⟩

theorem twoValidators_run : ∃ s : HostLifecycle, s.JoinableReachable ∧
    s.threads.created = 4 ∧ s.phase = .idle ∧ s.ctx.initialized = false := by
  obtain ⟨t, ht, hp⟩ := Transition.exists_of_run (· = HostLifecycle.zero)
    (Transition.guarded LifecycleCall.joinable HostLifecycle.act)
    [twoValidators, .start (fun _ => none) noWork, .work 1 ⟨⟨⟨1, 8, 0, 0, 0⟩, 3, 1⟩, 0, none⟩,
      .stop true noWork, .start (fun _ => none) noWork, .destroy noWork] .zero
    (fun s => s.threads.created = 4 && s.phase = .idle && !s.ctx.initialized) rfl
    (by decide +kernel)
  simp only [Bool.and_eq_true, decide_eq_true_eq, Bool.not_eq_true'] at hp
  exact ⟨t, ht, hp.1.1, hp.1.2, hp.2⟩

theorem twoValidators_joined : ∃ s : HostLifecycle, s.JoinableReachable ∧
    s.threads.created = 4 ∧ s.threads.joined.Nodup ∧ 3 ∈ s.threads.joined := by
  obtain ⟨s, hs, hc, hp, -⟩ := twoValidators_run
  have hok := hostValidation_lifecycle s hs
  refine ⟨s, hs, hc, hok.joined_once, hok.all_joined ?_ 3 (by omega) (by omega)⟩
  simp [hp]

/-- The second `pthread_create` fails; the first thread is joined by the start and again by the
stop. -/
theorem failedStart_not_ok : ¬ ∀ s : HostLifecycle, s.Reachable → LifecycleOk s := by
  intro h
  obtain ⟨s, hs, hp⟩ := Transition.exists_of_run (· = HostLifecycle.zero) HostLifecycle.act
    [twoValidators, .start (fun i => if i = 1 then some 0 else none) noWork, .stop true noWork]
    .zero (fun s => s.threads.joined = [1, 1]) rfl (by decide +kernel)
  have hn := (h s hs).joined_once
  rw [of_decide_eq_true hp] at hn
  simp at hn

end Perftest
