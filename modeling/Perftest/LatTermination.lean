import Perftest.LatPingPong

namespace Perftest

namespace LatSide

variable {c : LatConfig} {x : LatPeer} {a b : LatSide}

theorem Ok.counts_le (h : a.Ok c x) : a.scnt ≤ c.iters ∧ a.ccnt ≤ c.iters ∧ a.rcnt ≤ c.iters := by
  have hc := h.control
  unfold Control at hc
  cases x <;> cases hpc : a.pc <;> simp only [hpc] at hc <;> omega

theorem Ok.progress_le (h : a.Ok c x) :
    c.progress a ≤ (30 * c.iters + 10) * c.sizes.length := by
  have hle := h.counts_le
  by_cases hd : a.pc = .done
  · have hc := h.control
    unfold Control at hc
    have hz : a.scnt = 0 ∧ a.ccnt = 0 ∧ a.rcnt = 0 := by
      cases x <;> simpa [hd] using hc
    simp [LatConfig.progress, hd, hz, h.round_done hd]
  · have hmul := Nat.mul_le_mul_left (30 * c.iters + 10) (Nat.succ_le_of_lt (h.round_lt hd))
    rw [Nat.mul_succ] at hmul
    unfold LatConfig.progress
    cases hpc : a.pc <;> dsimp only
    · split <;> omega
    all_goals omega

/-- Every step of the loop makes progress. -/
theorem Ok.progress_lt (h : a.Ok c x) (ha : a.run c x = some b) :
    c.progress a < c.progress b := by
  have hc := h.control
  unfold Control at hc
  unfold LatSide.run at ha
  split at ha <;> rename_i hpc <;> simp only [hpc] at hc
  · split at ha
    next hloop =>
      split at ha
      next =>
        obtain rfl := Option.some.inj ha
        simp only [LatConfig.progress, hpc]
        split <;> omega
      next =>
        obtain rfl := Option.some.inj ha
        simp only [LatConfig.progress, hpc]
        split <;> omega
    next hloop =>
      obtain rfl := Option.some.inj ha
      have hend : a.scnt = c.iters ∧ a.ccnt = c.iters ∧ a.rcnt = c.iters := by
        have := h.counts_le
        omega
      simp only [LatConfig.progress, hpc, hend, and_self, if_true, Nat.mul_succ]
      omega
  · split at ha
    next =>
      obtain rfl := Option.some.inj ha
      simp only [LatConfig.progress, hpc]
      omega
    next => simp at ha
  · split at ha
    next =>
      obtain rfl := Option.some.inj ha
      simp only [LatConfig.progress, hpc]
      omega
    next =>
      obtain rfl := Option.some.inj ha
      simp only [LatConfig.progress, hpc]
      omega
  · obtain rfl := Option.some.inj ha
    simp only [LatConfig.progress, hpc]
    omega
  · split at ha
    next =>
      split at ha
      next =>
        obtain rfl := Option.some.inj ha
        simp only [LatConfig.progress, hpc]
        split <;> omega
      next => simp at ha
    next hge =>
      obtain rfl := Option.some.inj ha
      have hend : a.scnt = c.iters ∧ a.ccnt = c.iters ∧ a.rcnt = c.iters := by
        have := h.counts_le
        cases x <;> simp only at hc <;> omega
      simp [LatConfig.progress, hpc, hend]
  · simp at ha

theorem run_debt (h : a.Ok c x) (ha : a.run c x = some b) :
    LatConfig.debt b ≤ LatConfig.debt a + (c.ctxSize + 3) := by
  unfold LatSide.run at ha
  split at ha
  next =>
    split at ha
    next =>
      split at ha <;> obtain rfl := Option.some.inj ha <;> exact Nat.le_add_right _ _
    next =>
      obtain rfl := Option.some.inj ha
      exact Nat.le_add_right _ _
  next =>
    split at ha
    next =>
      obtain rfl := Option.some.inj ha
      exact Nat.le_add_right _ _
    next => simp at ha
  next =>
    split at ha <;> obtain rfl := Option.some.inj ha <;> exact Nat.le_add_right _ _
  next hpc =>
    obtain rfl := Option.some.inj ha
    have hle := LatConfig.sizeAt_le (h.round_lt (by simp [hpc]))
    simp only [LatConfig.debt, List.map_append, List.sum_append, List.map_singleton,
      List.sum_singleton]
    omega
  next =>
    split at ha
    next =>
      split at ha
      next =>
        obtain rfl := Option.some.inj ha
        exact Nat.le_add_right _ _
      next => simp at ha
    next =>
      obtain rfl := Option.some.inj ha
      exact Nat.le_add_right _ _
  next => simp at ha

theorem Ok.run_left (h : a.Ok c x) (hb : b.Ok c x) (ha : a.run c x = some b) :
    c.sideLeft b < c.sideLeft a := by
  have hlt := h.progress_lt ha
  have hle := hb.progress_le
  have hd := run_debt h ha
  have hmul := Nat.mul_le_mul_left (c.ctxSize + 4)
    (show (30 * c.iters + 10) * c.sizes.length - c.progress b + 1 ≤
      (30 * c.iters + 10) * c.sizes.length - c.progress a by omega)
  rw [Nat.mul_succ] at hmul
  unfold LatConfig.sideLeft
  omega

theorem fetch_left (ha : a.fetch = some b) : c.sideLeft b < c.sideLeft a := by
  unfold LatSide.fetch at ha
  split at ha
  next => simp at ha
  next w ws hsq =>
    obtain rfl := Option.some.inj ha
    unfold LatConfig.sideLeft
    refine Nat.add_lt_add_left ?_ _
    simp only [LatConfig.debt, hsq, List.map_cons, List.sum_cons, List.map_append, List.sum_append,
      List.map_nil, List.sum_nil, List.length_range]
    omega

theorem complete_left (ha : a.complete = some b) : c.sideLeft b < c.sideLeft a := by
  unfold LatSide.complete at ha
  split at ha
  next =>
    obtain rfl := Option.some.inj ha
    unfold LatConfig.sideLeft
    refine Nat.add_lt_add_left ?_ _
    simp only [LatConfig.debt]
    omega
  next => simp at ha

theorem land_left {j : Nat} {a' b' : LatSide} (ha : LatSide.land j a b = some (a', b')) :
    c.sideLeft a' < c.sideLeft a ∧ c.sideLeft b' = c.sideLeft b := by
  unfold LatSide.land at ha
  split at ha
  next => simp at ha
  next f fs hwire =>
    split at ha
    next hj =>
      obtain ⟨rfl, rfl⟩ := Prod.mk.inj (Option.some.inj ha)
      refine ⟨?_, rfl⟩
      have hlen := List.length_erase_of_mem hj.1
      have hpos := List.length_pos_of_mem hj.1
      split
      next =>
        refine Nat.add_lt_add_left ?_ _
        simp only [LatConfig.debt, hwire, List.map_cons, List.sum_cons]
        omega
      next =>
        refine Nat.add_lt_add_left ?_ _
        simp only [LatConfig.debt, hwire, List.map_cons, List.sum_cons]
        omega
    next => simp at ha

end LatSide

namespace LatInv

variable {c : LatConfig} {s t : LatState}

theorem stepsLeft_update (x : LatPeer) {a : LatSide} (h : c.sideLeft a < c.sideLeft (s x)) :
    c.stepsLeft (Function.update s x a) < c.stepsLeft s := by
  unfold LatConfig.stepsLeft
  cases x with
  | client =>
    rw [Function.update_self, Function.update_of_ne (by simp)]
    omega
  | server =>
    rw [Function.update_self, Function.update_of_ne (by simp)]
    omega

/-- No run goes on for ever. -/
theorem decreasing (h : LatInv c s) (hone : c.OneRegion) {a : LatAction}
    (ha : c.act a s = some t) : c.stepsLeft t < c.stepsLeft s := by
  cases a with
  | run x =>
    have ht := h.run hone ha
    obtain ⟨b, hb, rfl⟩ := Option.map_eq_some_iff.mp ha
    have hok := ht.sides x
    rw [Function.update_self] at hok
    exact stepsLeft_update x ((h.sides x).run_left hok hb)
  | fetch x =>
    obtain ⟨b, hb, rfl⟩ := Option.map_eq_some_iff.mp ha
    exact stepsLeft_update x (LatSide.fetch_left hb)
  | complete x =>
    obtain ⟨b, hb, rfl⟩ := Option.map_eq_some_iff.mp ha
    exact stepsLeft_update x (LatSide.complete_left hb)
  | land x j =>
    obtain ⟨⟨a', b'⟩, hb, rfl⟩ := Option.map_eq_some_iff.mp ha
    obtain ⟨hlt, heq⟩ := LatSide.land_left (c := c) hb
    unfold LatConfig.stepsLeft
    cases x with
    | client =>
      show c.sideLeft a' + c.sideLeft b' < _
      rw [heq]
      exact Nat.add_lt_add_right hlt _
    | server =>
      show c.sideLeft b' + c.sideLeft a' < _
      rw [heq]
      exact Nat.add_lt_add_left hlt _

/-- A side whose adapter is idle and which can make no step is done or waits for a write that has
not landed. -/
theorem stuck_side (h : LatInv c s) (hone : c.OneRegion) (hs : ∀ a, c.act a s = none)
    (x : LatPeer) : (s x).landed = (s x).posts ∧
      ((s x).pc = .done ∨ (s x).pc = .wait ∧ (s x.other).landed = (s x).waits) := by
  have hok := h.sides x
  have hsq : (s x).sq = [] := by
    have := hs (.fetch x)
    simp only [LatConfig.act, Option.map_eq_none_iff, LatSide.fetch] at this
    split at this
    next hnil => exact hnil
    next => simp at this
  have hun : (s x).unacked = 0 := by
    have := hs (.complete x)
    simp only [LatConfig.act, Option.map_eq_none_iff, LatSide.complete] at this
    split at this
    next => simp at this
    next hu => omega
  have hwire : (s x).wire = [] := by
    cases hw : (s x).wire with
    | nil => rfl
    | cons f fs =>
      have hfo := hok.wire_ok f (by rw [hw]; exact List.mem_cons_self)
      obtain ⟨j, hj, hl⟩ : ∃ j ∈ f.todo, j + 1 = f.length → f.todo = [j] := by
        by_cases ht : f.todo = [f.length - 1]
        · exact ⟨f.length - 1, hfo.todo, fun _ => ht⟩
        · obtain ⟨j, hj⟩ : ∃ j, j ∈ f.todo.erase (f.length - 1) := by
            refine List.exists_mem_of_ne_nil _ fun he => ht ?_
            have hlen := List.length_erase_of_mem hfo.todo
            rw [he] at hlen
            have hone := List.length_pos_of_mem hfo.todo
            obtain ⟨k, hk⟩ := List.length_eq_one_iff.mp
              (show f.todo.length = 1 by simp at hlen; omega)
            have hm := hfo.todo
            rw [hk] at hm ⊢
            rw [List.mem_singleton.mp hm]
          obtain ⟨hne, hm⟩ := hfo.nodup.mem_erase_iff.mp hj
          exact ⟨j, hm, fun he => absurd (by omega) hne⟩
      have := hs (.land x j)
      simp only [LatConfig.act, Option.map_eq_none_iff, LatSide.land, hw] at this
      rw [if_pos ⟨hj, hl⟩] at this
      cases this
  have hland : (s x).landed = (s x).posts := by
    have := hok.flying
    rw [hsq, hwire] at this
    exact this.symm
  refine ⟨hland, ?_⟩
  have hrun := hs (.run x)
  simp only [LatConfig.act, Option.map_eq_none_iff, LatSide.run] at hrun
  have hc := hok.control
  have hp := hok.posts
  have hw := hok.waits
  have hr := hok.reaped
  have hq := hok.queued
  rw [hsq, hun] at hq
  unfold LatSide.Control at hc
  cases hpc : (s x).pc with
  | head =>
    simp only [hpc] at hrun
    split at hrun
    next => split at hrun <;> cases hrun
    next => cases hrun
  | store =>
    simp only [hpc] at hrun
    split at hrun <;> cases hrun
  | post => simp [hpc] at hrun
  | poll =>
    simp only [hpc] at hrun hc
    rw [if_neg (by simp [hpc])] at hp
    split at hrun
    next hlt =>
      split at hrun
      next => cases hrun
      next hcq =>
        simp only [List.length_nil] at hq
        cases x <;> simp only at hc <;> omega
    next => cases hrun
  | done => exact .inl rfl
  | wait =>
    refine .inr ⟨rfl, ?_⟩
    simp only [hpc] at hrun
    split at hrun
    next => cases hrun
    next hne =>
      rw [if_pos hpc] at hw
      have hround := hok.round_lt (by simp [hpc])
      have hcount := hok.counts_le
      have hmem := h.memory x.other (s x).round hround
      have hpoll := LatConfig.pollBuf_eq hone x.other (c.sizeAt (s x).round)
      have hle := h.waits x.other
      have hpo := h.posts_le x.other
      have hfl := (h.sides x.other).flying
      rw [LatPeer.other_other] at hmem hpoll hle hpo
      have hr1 : 1 ≤ (s x).rcnt := by
        cases x <;> simp only [hpc] at hc <;> omega
      by_contra hnot
      refine hne ?_
      rw [hpoll, hmem (by rw [Nat.succ_mul]; omega)]
      congr 1
      omega

/-- The two sides are never both stuck before the end. -/
theorem stuck_done (h : LatInv c s) (hone : c.OneRegion) (hs : ∀ a, c.act a s = none) :
    ∀ x, (s x).pc = .done := by
  obtain ⟨hlc, hcc⟩ := h.stuck_side hone hs .client
  obtain ⟨hls, hcs⟩ := h.stuck_side hone hs .server
  have hfacts : ∀ x, ((s x).pc = .done → (s x).posts = c.sizes.length * c.iters ∧
        (s x).waits = c.sizes.length * c.iters) ∧
      ((s x).pc = .wait → (s x).waits < c.sizes.length * c.iters) := by
    intro x
    have hok := h.sides x
    have hp := hok.posts
    have hw := hok.waits
    refine ⟨fun hd => ?_, fun hwait => ?_⟩
    · have hc := hok.control
      unfold LatSide.Control at hc
      rw [if_neg (by simp [hd]), hok.round_done hd] at hp hw
      cases x <;> simp only [hd] at hc <;> omega
    · have hcount := hok.counts_le
      have hmul := Nat.mul_le_mul_right c.iters
        (Nat.succ_le_of_lt (hok.round_lt (by simp [hwait])))
      rw [Nat.succ_mul] at hmul
      rw [if_pos hwait] at hw
      have hr1 : 1 ≤ (s x).rcnt := by
        have hc := hok.control
        unfold LatSide.Control at hc
        cases x <;> simp only [hwait] at hc <;> omega
      omega
  have hserver := (h.sides .server).server
  have hclient := (h.sides .client).client
  have hpost : ∀ x, (s x).pc = .wait → (s x).posts = (s x).waits ∨ x = .server ∧
      (s x).posts = (s x).waits + 1 := by
    intro x hwait
    have hok := h.sides x
    have hc := hok.control
    have hp := hok.posts
    have hw := hok.waits
    unfold LatSide.Control at hc
    rw [if_neg (by simp [hwait])] at hp
    rw [if_pos hwait] at hw
    cases x <;> simp only [hwait] at hc <;> simp <;> omega
  have hother : LatPeer.other .client = .server ∧ LatPeer.other .server = .client := ⟨rfl, rfl⟩
  rw [hother.1] at hcc
  rw [hother.2] at hcs
  rcases hcc with hdc | ⟨hwc, hec⟩ <;> rcases hcs with hds | ⟨hws, hes⟩
  · intro x
    cases x
    · exact hdc
    · exact hds
  · have h1 := (hfacts .client).1 hdc
    have h2 := (hfacts .server).2 hws
    omega
  · have h1 := (hfacts .server).1 hds
    have h2 := (hfacts .client).2 hwc
    omega
  · have h1 := hpost .client hwc
    have h2 := hpost .server hws
    simp only [reduceCtorEq, false_and, or_false] at h1
    simp only [true_and] at h2
    have h3 := (h.sides .server).control
    have h4 := (h.sides .server).posts
    have h5 := (h.sides .server).waits
    unfold LatSide.Control at h3
    rw [if_neg (by simp [hws])] at h4
    rw [if_pos hws] at h5
    simp only [hws] at h3
    omega

theorem ok (h : LatInv c s) (hone : c.OneRegion) : PingPongOk c s := by
  refine ⟨fun x size _ => LatConfig.pollBuf_eq hone x size, h.waits, fun x hpc => ?_,
    fun x => (h.sides x).ends_eq, fun x hpc => ?_, h.stuck_done hone, fun a t ha =>
    h.decreasing hone ha⟩
  · have hok := h.sides x
    have hp := hok.posts
    have hr := hok.reaped
    have hc := hok.control
    unfold LatSide.Control at hc
    rw [if_neg (by simp [hpc])] at hp
    cases x <;> simp only [hpc] at hc <;> omega
  · rw [(h.sides x).ends_length, (h.sides x).round_done hpc]

end LatInv

/-- The ping-pong of `run_iter_lat_write`, for every number of iterations, one size or all of them,
every layout with one memory region a side and every interleaving of the two sides, their adapters
and the bytes that arrive. -/
theorem runIterLatWrite_pingPong (c : LatConfig) (hone : c.OneRegion) (s : LatState)
    (hs : c.Reachable s) : PingPongOk c s :=
  (LatInv.of_reachable hone hs).ok hone

/-- One round trip of two byte messages. -/
def latOnce : LatConfig where
  iters := 1
  method := .regular 2
  xrcOrDc := false
  buffers := fun _ => ⟨fun _ => 65536, 4096, false⟩
  size_pos := by decide

theorem runIterLatWrite_pingPong_latOnce :
    ∃ s, latOnce.Reachable s ∧ (∀ x, (s x).pc = .done) ∧ PingPongOk latOnce s := by
  obtain ⟨s, hs, hp⟩ := Transition.exists_of_run (· = fun _ => .init) latOnce.act
    [.run .server, .run .server, .run .server, .fetch .server, .land .server 0, .run .client,
      .land .server 1, .run .client, .run .client, .run .client, .fetch .client, .complete .client,
      .run .client, .complete .server, .run .server, .land .client 0, .land .client 1, .run .server,
      .run .server, .run .server, .run .server, .run .server, .run .client]
    _ (fun s => (s .client).pc = .done && (s .server).pc = .done) rfl (by decide +kernel)
  simp only [Bool.and_eq_true, decide_eq_true_eq] at hp
  refine ⟨s, hs, fun x => ?_, runIterLatWrite_pingPong latOnce (fun _ h => absurd h.1 (by decide)) s hs⟩
  cases x
  · exact hp.1
  · exact hp.2

/-- The dynamically connected test with one memory region for each queue pair. -/
def latMrPerQp : LatConfig where
  iters := 1
  method := .regular 2
  xrcOrDc := true
  buffers := fun _ => ⟨fun i => 65536 * (i + 1), 4096, true⟩
  size_pos := by decide

theorem runIterLatWrite_pingPong_mrPerQp :
    ¬ ∀ s, latMrPerQp.Reachable s → PingPongOk latMrPerQp s := by
  intro h
  have hp := (h _ (Transition.Reachable.of_init rfl)).polled .client 2 (by decide)
  exact absurd hp (by decide)

end Perftest
