import Perftest.BurstProgress

namespace Perftest

open CMachine BurstConfig

variable {c : BurstConfig} {s t : BurstState}

/-- A server that always has space for a due reply posts one for every `reply_every` pings. -/
theorem runIterLatBurstServer_scnt {k : Nat} {y z : BurstServer}
    (h : y.scnt = y.rcnt / c.replyEvery)
    (hsp : ∀ left, y.pc = .handle (left + 1) → c.ReplyDue y → c.HasSpace y)
    (hz : c.runIterLatBurstServer k y = some z) : z.scnt = z.rcnt / c.replyEvery := by
  unfold runIterLatBurstServer at hz
  split at hz
  next =>
    split at hz
    next =>
      obtain ⟨-, hz⟩ := Option.ite_none_right_eq_some.mp hz
      obtain rfl := Option.some.inj hz
      exact h
    next =>
      obtain rfl := Option.some.inj hz
      exact h
  next =>
    obtain rfl := Option.some.inj hz
    exact h
  next left hpc =>
    have hdiv : (y.rcnt + 1) / c.replyEvery = y.rcnt / c.replyEvery +
        if c.replyEvery ∣ y.rcnt + 1 then 1 else 0 := Nat.succ_div
    split at hz
    next hc =>
      obtain rfl := Option.some.inj hz
      rw [if_pos (Nat.dvd_of_mod_eq_zero hc.1)] at hdiv
      show y.scnt + 1 = (y.rcnt + 1) / c.replyEvery
      rw [hdiv, h]
    next hc =>
      obtain rfl := Option.some.inj hz
      have hnd : ¬ c.replyEvery ∣ y.rcnt + 1 := fun hd =>
        hc ⟨Nat.mod_eq_zero_of_dvd hd, hsp left hpc (Nat.mod_eq_zero_of_dvd hd)⟩
      rw [if_neg hnd] at hdiv
      show y.scnt = (y.rcnt + 1) / c.replyEvery
      rw [hdiv, h, Nat.add_zero]
  next =>
    obtain ⟨-, hz⟩ := Option.ite_none_right_eq_some.mp hz
    obtain rfl := Option.some.inj hz
    exact h
  next => simp at hz

theorem act_scnt {a : BurstAction} (h : s.server.scnt = s.server.rcnt / c.replyEvery)
    (hsp : c.spacious a s = true) (ha : c.act a s = some t) :
    t.server.scnt = t.server.rcnt / c.replyEvery := by
  cases a <;> simp only [act] at ha <;> obtain ⟨z, hz, rfl⟩ := Option.map_eq_some_iff.mp ha
  case server k =>
    refine runIterLatBurstServer_scnt h (fun left hpc => ?_) hz
    simp only [spacious, hpc, decide_eq_true_eq] at hsp
    exact hsp
  all_goals exact h

/-- The invariant of the runs in which no reply is left out. -/
structure BurstAnswered (c : BurstConfig) (s : BurstState) : Prop extends BurstInv c s where
  scnt : s.server.scnt = s.server.rcnt / c.replyEvery

namespace BurstAnswered

theorem init (c : BurstConfig) : BurstAnswered c c.init :=
  ⟨BurstInv.init c, (Nat.zero_div _).symm⟩

theorem step (h : BurstAnswered c s) {a : BurstAction} (hsp : c.spacious a s = true)
    (ha : c.act a s = some t) : BurstAnswered c t :=
  ⟨h.toBurstInv.step ha, act_scnt h.scnt hsp ha⟩

theorem repliesOk (h : BurstAnswered c s) : RepliesOk c s :=
  ⟨h.scnt, fun hd => h.scnt ▸ Nat.div_le_div_right (h.serverDone hd)⟩

/-- Where all replies of the test fit, a due reply always finds space. -/
theorem spacious (h : BurstAnswered c s) (hfit : c.AllFit) (a : BurstAction) :
    c.spacious a s = true := by
  unfold BurstConfig.spacious
  split
  next left hpc =>
    refine decide_eq_true fun hdue => ?_
    have hping := h.pings
    have htotal := h.total
    have hack := h.replyAcks
    rw [hpc, BurstServerPc.left] at hping
    have hdiv : (s.server.rcnt + 1) / c.replyEvery = s.server.rcnt / c.replyEvery +
        if c.replyEvery ∣ s.server.rcnt + 1 then 1 else 0 := Nat.succ_div
    rw [if_pos (Nat.dvd_of_mod_eq_zero hdue)] at hdiv
    have hle : (s.server.rcnt + 1) / c.replyEvery ≤ c.iters / c.replyEvery :=
      Nat.div_le_div_right (by omega)
    have hscnt := h.scnt
    unfold HasSpace
    rw [subU64_of_le (by omega)]
    rcases hfit.2 with hzero | ⟨-, hfit⟩
    · omega
    · omega
  next => rfl

theorem of_step (hfit : c.AllFit) (h : BurstAnswered c s) (hs : c.Step s t) :
    BurstAnswered c t := by
  obtain ⟨a, ha⟩ := hs
  exact h.step (h.spacious hfit a) ha

theorem exists_done (h : BurstAnswered c s) (hfit : c.AllFit) :
    ∃ t, Relation.ReflTransGen c.Step s t ∧ t.client.pc = .done := by
  have hgoal : ∃ t, Relation.ReflTransGen c.Step s t ∧
      ∃ u, c.Quietly t u ∧ u.client.pc = .done := by
    refine Transition.exists_goal_of_measure (P := BurstAnswered c) c.pending
      (fun _ _ hs => hs.of_step hfit) ?_ h
    intro s hs hgoal
    have hpc : s.client.pc ≠ .done := fun hd => hgoal ⟨s, .refl, hd⟩
    rcases hs.reaches_done hfit hs.scnt hpc with ⟨t, ht, hlt⟩ | hd
    · exact ⟨t, Quietly.steps ht, hlt⟩
    · exact absurd hd hgoal
  obtain ⟨t, ht, u, hu, hd⟩ := hgoal
  exact ⟨u, ht.trans (Quietly.steps hu), hd⟩

end BurstAnswered

theorem repliesOk_of_spacious (h : c.SpaciousReachable s) : RepliesOk c s := by
  refine BurstAnswered.repliesOk (Transition.Reachable.invariant ?_ ?_ h)
  · rintro s rfl
    exact BurstAnswered.init c
  · intro s t hs ⟨a, ha⟩
    obtain ⟨hsp, ha⟩ := Transition.guarded_eq_some.mp ha
    exact hs.step hsp ha

theorem burstOk_of_allFit (hfit : c.AllFit) (h : c.Reachable s) : BurstOk c s := by
  have hi : BurstAnswered c s := by
    refine Transition.Reachable.invariant ?_ (fun _ _ hs => hs.of_step hfit) h
    rintro s rfl
    exact BurstAnswered.init c
  refine ⟨hi.repliesOk, ?_⟩
  obtain ⟨t, ht, hd⟩ := hi.exists_done hfit
  obtain ⟨s₀, h₀, hr⟩ := h
  have hinv : BurstInv c t := BurstInv.of_reachable ⟨s₀, h₀, hr.trans ht⟩
  exact ⟨t, ht, hd, not_lt.mp fun hlt => hinv.clientDone hd (.inl hlt)⟩

/-- A client that polls for no completions counts none. -/
theorem totccnt_eq_zero (hb : c.client.burstSize = 0) (h : c.Reachable s) :
    s.client.totccnt = 0 := by
  refine Transition.Reachable.invariant (P := fun s => s.client.totccnt = 0) ?_ ?_ h
  · rintro s rfl
    rfl
  · intro s t hs ⟨a, ha⟩
    cases a <;> simp only [act] at ha <;> obtain ⟨z, hz, rfl⟩ := Option.map_eq_some_iff.mp ha
    case client k =>
      unfold runIterLatBurst at hz
      split at hz
      next =>
        split at hz
        · split at hz <;> obtain rfl := Option.some.inj hz <;> exact hs
        · obtain rfl := Option.some.inj hz
          exact hs
      next => split at hz <;> obtain rfl := Option.some.inj hz <;> exact hs
      next =>
        obtain ⟨-, hz⟩ := Option.ite_none_right_eq_some.mp hz
        obtain rfl := Option.some.inj hz
        exact hs
      next =>
        obtain ⟨hk, hz⟩ := Option.ite_none_right_eq_some.mp hz
        obtain rfl := Option.some.inj hz
        show s.client.totccnt + k = 0
        omega
      next => simp at hz
    case gap =>
      obtain ⟨-, hz⟩ := Option.ite_none_right_eq_some.mp hz
      obtain rfl := Option.some.inj hz
      exact hs
    all_goals exact hs

/-- A server that polls for no pings receives none. -/
theorem rcnt_eq_zero (hb : c.server.burstSize = 0) (h : c.Reachable s) :
    s.server.rcnt = 0 ∧ s.server.pc.left = 0 := by
  refine Transition.Reachable.invariant
    (P := fun s => s.server.rcnt = 0 ∧ s.server.pc.left = 0) ?_ ?_ h
  · rintro s rfl
    exact ⟨rfl, rfl⟩
  · intro s t hs ⟨a, ha⟩
    cases a <;> simp only [act] at ha <;> obtain ⟨z, hz, rfl⟩ := Option.map_eq_some_iff.mp ha
    case server k =>
      unfold runIterLatBurstServer at hz
      split at hz
      next =>
        split at hz
        · obtain ⟨hk, hz⟩ := Option.ite_none_right_eq_some.mp hz
          obtain rfl := Option.some.inj hz
          refine ⟨hs.1, ?_⟩
          show k = 0
          omega
        · obtain rfl := Option.some.inj hz
          exact ⟨hs.1, rfl⟩
      next =>
        obtain rfl := Option.some.inj hz
        exact ⟨hs.1, rfl⟩
      next left hpc =>
        have hleft := hs.2
        rw [hpc] at hleft
        exact absurd hleft (Nat.succ_ne_zero left)
      next =>
        obtain ⟨-, hz⟩ := Option.ite_none_right_eq_some.mp hz
        obtain rfl := Option.some.inj hz
        exact ⟨hs.1, rfl⟩
      next => simp at hz
    all_goals exact hs

/-- While no reply completes, the server counts no completion. -/
theorem ccnt_eq_zero (h : Transition.Reachable (· = c.init) c.QuietStep s) :
    s.server.ccnt = 0 ∧ s.server.port.sendCq = 0 := by
  refine Transition.Reachable.invariant
    (P := fun s => s.server.ccnt = 0 ∧ s.server.port.sendCq = 0) ?_ ?_ h
  · rintro s rfl
    exact ⟨rfl, rfl⟩
  · intro s t hs ⟨a, hga⟩
    obtain ⟨hq, ha⟩ := Transition.guarded_eq_some.mp hga
    cases a <;> simp only [act] at ha <;> obtain ⟨z, hz, rfl⟩ := Option.map_eq_some_iff.mp ha
    case completeReply => simp [quiet] at hq
    case server k =>
      unfold runIterLatBurstServer at hz
      split at hz
      next =>
        split at hz
        · obtain ⟨-, hz⟩ := Option.ite_none_right_eq_some.mp hz
          obtain rfl := Option.some.inj hz
          exact hs
        · obtain rfl := Option.some.inj hz
          exact hs
      next =>
        obtain rfl := Option.some.inj hz
        exact hs
      next => split at hz <;> obtain rfl := Option.some.inj hz <;> exact hs
      next =>
        obtain ⟨hk, hz⟩ := Option.ite_none_right_eq_some.mp hz
        obtain rfl := Option.some.inj hz
        obtain ⟨h1, h2⟩ := hs
        refine ⟨?_, ?_⟩
        · show s.server.ccnt + k = 0
          omega
        · show s.server.port.sendCq - k = 0
          omega
      next => simp at hz
    case deliverPing | deliverReply =>
      obtain ⟨-, hz⟩ := Option.ite_none_right_eq_some.mp hz
      obtain rfl := Option.some.inj hz
      exact hs
    all_goals exact hs

/-- All pings are handled before the first reply completes. -/
theorem exists_rcnt_eq_iters (hbc : 1 ≤ c.client.burstSize) (hbs : 1 ≤ c.server.burstSize) :
    ∃ s, Transition.Reachable (· = c.init) c.QuietStep s ∧ c.iters ≤ s.server.rcnt := by
  have hgoal : ∃ s, c.Quietly c.init s ∧ c.iters ≤ s.server.rcnt := by
    refine Transition.exists_goal_of_measure (P := BurstInv c) c.pending ?_ ?_ (BurstInv.init c)
    · intro s t hs hstep
      obtain ⟨a, ha⟩ := QuietStep.step hstep
      exact hs.step ha
    · intro s hs hlt
      exact hs.advances_of_pings hbc hbs (not_le.mp hlt)
  obtain ⟨s, hr, hs⟩ := hgoal
  exact ⟨s, ⟨_, rfl, hr⟩, hs⟩

theorem allFit_of_burstOk (h : ∀ s, c.Reachable s → BurstOk c s) : c.AllFit := by
  have hinit : c.Reachable c.init := Transition.Reachable.of_init rfl
  obtain ⟨t, ht, hd, hle⟩ := (h _ hinit).satisfiable
  have hreach : c.Reachable t := ⟨_, rfl, ht⟩
  have hinv := BurstInv.of_reachable hreach
  have hcc : c.iters ≤ t.client.totccnt := not_lt.mp fun hlt => hinv.clientDone hd (.inr hlt)
  have hpos := c.iters_pos
  have hbc : 1 ≤ c.client.burstSize := by
    by_contra hb
    have := totccnt_eq_zero (by omega) hreach
    omega
  refine ⟨hbc, ?_⟩
  by_cases hzero : c.iters / c.replyEvery = 0
  · exact .inl hzero
  right
  have hack := hinv.acks
  have hans := hinv.answers
  have hdue := hinv.due
  have hmono : c.iters / c.replyEvery ≤ t.client.totscnt / c.replyEvery :=
    Nat.div_le_div_right (by omega)
  have hbs : 1 ≤ c.server.burstSize := by
    by_contra hb
    have hrcnt := rcnt_eq_zero (by omega) hreach
    rw [hrcnt.1, Nat.zero_div] at hdue
    have hnone : t.client.totrcnt = 0 := by omega
    exact hzero (Nat.le_zero.mp (hnone ▸ hmono.trans hle))
  refine ⟨hbs, ?_⟩
  obtain ⟨u, hu, hrcnt⟩ := exists_rcnt_eq_iters hbc hbs
  obtain ⟨s₀, h₀, hr⟩ := hu
  have hfull : c.Reachable u := ⟨s₀, h₀, Quietly.steps hr⟩
  have hcnt := ccnt_eq_zero ⟨s₀, h₀, hr⟩
  have hspace := (BurstInv.of_reachable hfull).space
  have hall : c.iters / c.replyEvery ≤ u.server.rcnt / c.replyEvery := Nat.div_le_div_right hrcnt
  rw [(h u hfull).replies, hcnt.1] at hspace
  omega

/-- The server of `run_iter_lat_burst_server` keeps up with the pings in every run exactly when all
its replies fit into its send queue, and always in the runs in which a due reply finds space. -/
theorem runIterLatBurstServer_replies (c : BurstConfig) :
    ((∀ s, c.Reachable s → BurstOk c s) ↔ c.AllFit) ∧
      ∀ s, c.SpaciousReachable s → RepliesOk c s :=
  ⟨⟨allFit_of_burstOk, fun hfit _ hs => burstOk_of_allFit hfit hs⟩,
    fun _ hs => repliesOk_of_spacious hs⟩

/-- Five pings, a reply to each of them, and a send queue of one request on the server. -/
def burstShallow : BurstConfig where
  iters := 5
  replyEvery := 1
  client := ⟨5, 5, 5, by decide, by decide⟩
  server := ⟨1, 5, 5, Nat.one_pos, by decide⟩
  iters_pos := by decide
  iters_lt := by decide
  replyEvery_pos := Nat.one_pos

theorem runIterLatBurstServer_drops :
    ¬ ∀ s, burstShallow.Reachable s →
      s.server.scnt = s.server.rcnt / burstShallow.replyEvery ∧
      ¬ (s.server.pc = .done ∧
        s.server.scnt < burstShallow.iters / burstShallow.replyEvery) := by
  intro h
  obtain ⟨s, hs, hp⟩ := Transition.exists_of_run (· = burstShallow.init) burstShallow.act
    [.client 0, .client 0, .client 0, .client 0, .client 0, .client 0, .deliverPing, .deliverPing,
      .deliverPing, .deliverPing, .deliverPing, .server 5, .server 0, .server 0, .server 0,
      .server 0, .server 0, .server 0, .server 0, .server 0]
    burstShallow.init (fun s => s.server.pc = .done && s.server.scnt = 1) rfl (by decide +kernel)
  simp only [Bool.and_eq_true, decide_eq_true_eq] at hp
  refine (h s hs).2 ⟨hp.1, ?_⟩
  rw [hp.2]
  decide

end Perftest
