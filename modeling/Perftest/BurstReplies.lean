import Perftest.BurstLat

namespace Perftest

open CMachine

/-- The completions of the current batch that the server has not handled. -/
def BurstServerPc.left : BurstServerPc → Nat
  | .handle n => n
  | _ => 0

/-- Every request and every message is in one place, and the loops were left for their reasons. -/
structure BurstInv (c : BurstConfig) (s : BurstState) : Prop where
  pings : s.client.totscnt =
    s.client.port.wire + s.server.port.recvCq + s.server.pc.left + s.server.rcnt
  acks : s.client.totscnt = s.client.port.unacked + s.client.port.sendCq + s.client.totccnt
  total : s.client.totscnt ≤ c.iters
  answers : s.server.scnt = s.server.port.wire + s.client.port.recvCq + s.client.totrcnt
  replyAcks : s.server.scnt = s.server.port.unacked + s.server.port.sendCq + s.server.ccnt
  due : s.server.scnt ≤ s.server.rcnt / c.replyEvery
  space : s.server.scnt ≤ s.server.ccnt + c.server.txDepth
  clientRecv : s.client.port.recvWqes + s.client.port.recvCq = c.client.rxDepth
  serverRecv : s.server.port.recvWqes + s.server.port.recvCq + s.server.pc.left =
    c.server.rxDepth
  clientDone : s.client.pc = .done → ¬ c.Running s.client
  serverDone : s.server.pc = .done → c.iters ≤ s.server.rcnt

namespace BurstInv

variable {c : BurstConfig} {s t : BurstState}

theorem init (c : BurstConfig) : BurstInv c c.init := by
  refine ⟨?_, ?_, ?_, ?_, ?_, ?_, ?_, ?_, ?_, ?_, ?_⟩ <;>
    simp [BurstConfig.init, BurstServerPc.left]

theorem clientStep (h : BurstInv c s) {k : Nat} {x : BurstClient}
    (hx : c.runIterLatBurst k s.client = some x) : BurstInv c { s with client := x } := by
  obtain ⟨h1, h2, h3, h4, h5, h6, h7, h8, h9, h10, h11⟩ := h
  unfold BurstConfig.runIterLatBurst at hx
  split at hx
  next hpc =>
    split at hx
    next hrun =>
      split at hx <;> obtain rfl := Option.some.inj hx <;>
        exact ⟨h1, h2, h3, h4, h5, h6, h7, h8, h9, by simp, h11⟩
    next hrun =>
      obtain rfl := Option.some.inj hx
      exact ⟨h1, h2, h3, h4, h5, h6, h7, h8, h9, fun _ => hrun, h11⟩
  next hpc =>
    split at hx
    next hpost =>
      obtain rfl := Option.some.inj hx
      obtain ⟨hlt, -, -⟩ := hpost
      refine ⟨?_, ?_, hlt, h4, h5, h6, h7, h8, h9, by simp [hpc], h11⟩
      · simp only [BurstPort.postSend]
        omega
      · simp only [BurstPort.postSend]
        omega
    next =>
      obtain rfl := Option.some.inj hx
      exact ⟨h1, h2, h3, h4, h5, h6, h7, h8, h9, by simp, h11⟩
  next hpc =>
    split at hx
    next hk =>
      obtain rfl := Option.some.inj hx
      refine ⟨h1, h2, h3, ?_, h5, h6, h7, ?_, h9, by simp, h11⟩
      · show s.server.scnt =
          s.server.port.wire + (s.client.port.recvCq - k) + (s.client.totrcnt + k)
        omega
      · show s.client.port.recvWqes + k + (s.client.port.recvCq - k) = c.client.rxDepth
        omega
    next => simp at hx
  next ne hpc =>
    split at hx
    next hk =>
      obtain rfl := Option.some.inj hx
      refine ⟨h1, ?_, h3, h4, h5, h6, h7, h8, h9, ?_, h11⟩
      · show s.client.totscnt =
          s.client.port.unacked + (s.client.port.sendCq - k) + (s.client.totccnt + k)
        omega
      · intro hd
        dsimp only at hd
        split at hd <;> simp at hd
    next => simp at hx
  next => simp at hx

theorem serverStep (h : BurstInv c s) {k : Nat} {y : BurstServer}
    (hy : c.runIterLatBurstServer k s.server = some y) : BurstInv c { s with server := y } := by
  obtain ⟨h1, h2, h3, h4, h5, h6, h7, h8, h9, h10, h11⟩ := h
  unfold BurstConfig.runIterLatBurstServer at hy
  split at hy
  next hpc =>
    simp only [hpc, BurstServerPc.left] at h1 h9
    split at hy
    next hrun =>
      split at hy
      next hk =>
        obtain rfl := Option.some.inj hy
        refine ⟨?_, h2, h3, h4, h5, h6, h7, h8, ?_, h10, by simp⟩
        · simp only [BurstServerPc.left]
          omega
        · simp only [BurstServerPc.left]
          omega
      next => simp at hy
    next hrun =>
      obtain rfl := Option.some.inj hy
      exact ⟨h1, h2, h3, h4, h5, h6, h7, h8, h9, h10, fun _ => by simpa using hrun⟩
  next hpc =>
    simp only [hpc, BurstServerPc.left] at h1 h9
    obtain rfl := Option.some.inj hy
    exact ⟨h1, h2, h3, h4, h5, h6, h7, h8, h9, h10, by simp⟩
  next left hpc =>
    simp only [hpc, BurstServerPc.left] at h1 h9
    have hdiv : (s.server.rcnt + 1) / c.replyEvery = s.server.rcnt / c.replyEvery +
        if c.replyEvery ∣ s.server.rcnt + 1 then 1 else 0 := Nat.succ_div
    split at hy
    next hc =>
      obtain ⟨hdue, hspace⟩ := hc
      obtain rfl := Option.some.inj hy
      unfold BurstConfig.HasSpace at hspace
      rw [subU64_of_le (by omega)] at hspace
      rw [if_pos (Nat.dvd_of_mod_eq_zero hdue)] at hdiv
      refine ⟨?_, h2, h3, ?_, ?_, ?_, ?_, h8, ?_, h10, by simp⟩ <;>
        simp only [BurstServerPc.left, BurstPort.postSend] <;> omega
    next =>
      obtain rfl := Option.some.inj hy
      refine ⟨?_, h2, h3, h4, h5, ?_, h7, h8, ?_, h10, by simp⟩ <;>
        simp only [BurstServerPc.left] <;> omega
  next hpc =>
    simp only [hpc, BurstServerPc.left] at h1 h9
    split at hy
    next hk =>
      obtain rfl := Option.some.inj hy
      refine ⟨h1, h2, h3, h4, ?_, h6, ?_, h8, h9, h10, by simp⟩
      · show s.server.scnt =
          s.server.port.unacked + (s.server.port.sendCq - k) + (s.server.ccnt + k)
        omega
      · show s.server.scnt ≤ s.server.ccnt + k + c.server.txDepth
        omega
    next => simp at hy
  next => simp at hy

theorem step (h : BurstInv c s) {a : BurstAction} (ha : c.act a s = some t) : BurstInv c t := by
  cases a <;> simp only [BurstConfig.act] at ha <;>
    obtain ⟨z, hz, rfl⟩ := Option.map_eq_some_iff.mp ha
  case client k => exact h.clientStep hz
  case server k => exact h.serverStep hz
  case gap =>
    unfold BurstConfig.waitGap at hz
    obtain ⟨hg, hz⟩ := Option.ite_none_right_eq_some.mp hz
    obtain rfl := Option.some.inj hz
    obtain ⟨h1, h2, h3, h4, h5, h6, h7, h8, h9, h10, h11⟩ := h
    exact ⟨h1, h2, h3, h4, h5, h6, h7, h8, h9, by simp, h11⟩
  all_goals
    obtain ⟨hg, hz⟩ := Option.ite_none_right_eq_some.mp hz
    obtain rfl := Option.some.inj hz
    obtain ⟨h1, h2, h3, h4, h5, h6, h7, h8, h9, h10, h11⟩ := h
    refine ⟨?_, ?_, h3, ?_, ?_, h6, h7, ?_, ?_, h10, h11⟩ <;> dsimp only <;> omega

theorem of_reachable (h : c.Reachable s) : BurstInv c s := by
  refine Transition.Reachable.invariant ?_ ?_ h
  · rintro s rfl
    exact init c
  · intro s t hs ⟨a, ha⟩
    exact hs.step ha

end BurstInv

end Perftest
