import Perftest.BurstReplies

namespace Perftest

open CMachine

/-- The client in a burst, a new one unless it is in the middle of one. -/
def BurstState.bursting (s : BurstState) (pc : BurstClientPc) : BurstState :=
  { s with client := { s.client with
      pc := pc
      isSendingBurst := true
      burstIter := if s.client.isSendingBurst then s.client.burstIter else 0 } }

namespace BurstConfig

variable (c : BurstConfig)

/-- The replies do not complete, and the gap between two bursts is always over. -/
def quiet (a : BurstAction) (_ : BurstState) : Bool := decide (a ≠ .completeReply ∧ a ≠ .gap)

abbrev QuietStep : BurstState → BurstState → Prop :=
  Transition.stepOf (Transition.guarded quiet c.act)

abbrev Quietly : BurstState → BurstState → Prop := Relation.ReflTransGen c.QuietStep

/-- What the two loops and the adapters have still to do, up to the completions of the replies. -/
def pending (s : BurstState) : Nat :=
  12 * (c.iters - s.client.totscnt) + 2 * s.client.port.unacked + s.client.port.sendCq +
    8 * s.client.port.wire + 7 * (s.server.port.recvCq + s.server.pc.left) +
    3 * s.server.port.wire + 2 * s.client.port.recvCq

/-- A state with less to do is reached. -/
def Advances (s : BurstState) : Prop := ∃ t, c.Quietly s t ∧ c.pending t < c.pending s

variable {c} {s t : BurstState}

theorem QuietStep.of_act {a : BurstAction} (hc : a ≠ .completeReply) (hg : a ≠ .gap)
    (ha : c.act a s = some t) : c.QuietStep s t :=
  ⟨a, Transition.guarded_eq_some.mpr ⟨decide_eq_true ⟨hc, hg⟩, ha⟩⟩

theorem QuietStep.step (h : c.QuietStep s t) : c.Step s t := by
  obtain ⟨a, ha⟩ := h
  exact ⟨a, (Transition.guarded_eq_some.mp ha).2⟩

theorem Quietly.steps (h : c.Quietly s t) : Relation.ReflTransGen c.Step s t :=
  Relation.ReflTransGen.mono (fun _ _ hs => QuietStep.step hs) _ _ h

theorem Quietly.client {k : Nat} {x : BurstClient}
    (hx : c.runIterLatBurst k s.client = some x) : c.Quietly s { s with client := x } :=
  .single (.of_act (a := .client k) (by simp) (by simp) (by simp [act, hx]))

theorem Quietly.server {k : Nat} {y : BurstServer}
    (hy : c.runIterLatBurstServer k s.server = some y) : c.Quietly s { s with server := y } :=
  .single (.of_act (a := .server k) (by simp) (by simp) (by simp [act, hy]))

theorem Advances.trans (hr : c.Quietly s t) (hp : c.pending t ≤ c.pending s)
    (h : c.Advances t) : c.Advances s := by
  obtain ⟨u, hu, hlt⟩ := h
  exact ⟨u, hr.trans hu, by omega⟩

theorem Advances.of_act {a : BurstAction} (hc : a ≠ .completeReply) (hg : a ≠ .gap)
    (ha : c.act a s = some t) (hp : c.pending t < c.pending s) : c.Advances s :=
  ⟨t, .single (.of_act hc hg ha), hp⟩

theorem Advances.of_client {k : Nat} {x : BurstClient}
    (hx : c.runIterLatBurst k s.client = some x)
    (hp : c.pending { s with client := x } < c.pending s) : c.Advances s :=
  ⟨_, .client hx, hp⟩

theorem Advances.of_completePing (h : 0 < s.client.port.unacked) : c.Advances s := by
  refine .of_act (a := .completePing) (t := { s with client := { s.client with
      port := { s.client.port with
        unacked := s.client.port.unacked - 1, sendCq := s.client.port.sendCq + 1 } } })
    (by simp) (by simp) ?_ ?_
  · simp [act, BurstPort.complete, h]
  · simp only [pending]
    omega

theorem Advances.of_deliverPing (h : 0 < s.client.port.wire) (hr : 0 < s.server.port.recvWqes) :
    c.Advances s := by
  refine .of_act (a := .deliverPing) (t := ⟨{ s.client with
      port := { s.client.port with wire := s.client.port.wire - 1 } },
      { s.server with port := { s.server.port with
        recvCq := s.server.port.recvCq + 1, recvWqes := s.server.port.recvWqes - 1 } }⟩)
    (by simp) (by simp) ?_ ?_
  · simp [act, BurstPort.deliver, h, hr]
  · simp only [pending]
    omega

theorem Advances.of_deliverReply (h : 0 < s.server.port.wire) (hr : 0 < s.client.port.recvWqes) :
    c.Advances s := by
  refine .of_act (a := .deliverReply) (t := ⟨{ s.client with port := { s.client.port with
        recvCq := s.client.port.recvCq + 1, recvWqes := s.client.port.recvWqes - 1 } },
      { s.server with port := { s.server.port with wire := s.server.port.wire - 1 } }⟩)
    (by simp) (by simp) ?_ ?_
  · simp [act, BurstPort.deliver, h, hr]
  · simp only [pending]
    omega

/-- The post that the client makes next. -/
theorem Advances.of_posting (hpc : s.client.pc = .post) (h : c.Posting s.client) :
    c.Advances s := by
  have hlt := h.1
  refine .of_client (k := 0) (x := { s.client with
      totscnt := s.client.totscnt + 1
      burstIter := s.client.burstIter + 1
      isSendingBurst := decide (s.client.burstIter + 1 ≠ c.client.burstSize)
      port := s.client.port.postSend }) ?_ ?_
  · simp [runIterLatBurst, hpc, h]
  · simp only [pending, BurstPort.postSend]
    omega

theorem Advances.of_pollRecv (hpc : s.client.pc = .pollRecv) (h : 0 < s.client.port.recvCq) :
    c.Advances s := by
  refine .of_client (k := 1) (x := { s.client with
      pc := .pollSend 1
      totrcnt := s.client.totrcnt + 1
      port := { s.client.port with
        recvCq := s.client.port.recvCq - 1, recvWqes := s.client.port.recvWqes + 1 } }) ?_ ?_
  · have h1 : 1 ≤ CTX_POLL_BATCH ∧ 1 ≤ s.client.port.recvCq := ⟨by decide, h⟩
    simp only [runIterLatBurst, hpc, if_pos h1]
  · simp only [pending]
    omega

theorem Advances.of_pollSend {ne : Nat} (hpc : s.client.pc = .pollSend ne)
    (hb : 1 ≤ c.client.burstSize) (h : 0 < s.client.port.sendCq) : c.Advances s := by
  refine .of_client (k := 1) (x := { s.client with
      pc := if ne = 0 then .head else .pollRecv
      totccnt := s.client.totccnt + 1
      port := { s.client.port with sendCq := s.client.port.sendCq - 1 } }) ?_ ?_
  · have h1 : 1 ≤ c.client.burstSize ∧ 1 ≤ s.client.port.sendCq := ⟨hb, h⟩
    simp only [runIterLatBurst, hpc, if_pos h1]
  · simp only [pending]
    omega

theorem Quietly.pollSend_head {ne : Nat} (hpc : s.client.pc = .pollSend ne) (hne : ne = 0) :
    c.Quietly s { s with client := { s.client with pc := .head } } := by
  refine .client (k := 0) ?_
  simp [runIterLatBurst, hpc, hne]

theorem Quietly.pollRecv_head (hpc : s.client.pc = .pollRecv) :
    c.Quietly s { s with client := { s.client with pc := .head } } := by
  have h1 : c.Quietly s { s with client := { s.client with pc := .pollSend 0 } } := by
    refine .client (k := 0) ?_
    simp [runIterLatBurst, hpc]
  exact h1.trans (Quietly.pollSend_head rfl rfl)

/-- The client comes back to the head of its loop, unless it posts before. -/
theorem Quietly.toHead (hpc : s.client.pc ≠ .done) :
    c.Advances s ∨ c.Quietly s { s with client := { s.client with pc := .head } } := by
  cases hp : s.client.pc with
  | head =>
    right
    have hs : { s with client := { s.client with pc := .head } } = s := by
      rw [← hp]
    rw [hs]
  | post =>
    by_cases hpost : c.Posting s.client
    · exact .inl (.of_posting hp hpost)
    right
    have h1 : c.Quietly s { s with client := { s.client with pc := .pollRecv } } := by
      refine .client (k := 0) ?_
      simp [runIterLatBurst, hp, hpost]
    exact h1.trans (Quietly.pollRecv_head rfl)
  | pollRecv => exact .inr (.pollRecv_head hp)
  | pollSend ne =>
    right
    by_cases hne : ne = 0
    · exact .pollSend_head hp hne
    have h1 : c.Quietly s { s with client := { s.client with pc := .pollRecv } } := by
      refine .client (k := 0) ?_
      simp [runIterLatBurst, hp, hne]
    exact h1.trans (Quietly.pollRecv_head rfl)
  | done => exact absurd hp hpc

/-- A turn of the client's loop does something, unless there is nothing to poll and the loop may
not post. -/
theorem Advances.of_running (hpc : s.client.pc ≠ .done) (hrun : c.Running s.client)
    (hb : 1 ≤ c.client.burstSize) :
    c.Advances s ∨ (s.client.port.recvCq = 0 ∧ s.client.port.sendCq = 0 ∧
      ¬ (s.client.totscnt < c.iters ∧
        subU64 s.client.totscnt s.client.totccnt < c.client.txDepth)) := by
  rcases Quietly.toHead (c := c) hpc with hadv | hhead
  · exact .inl hadv
  have hpost : c.Quietly s (s.bursting .post) := by
    refine hhead.trans (Quietly.client (k := 0) ?_)
    cases hsend : s.client.isSendingBurst <;> simp [runIterLatBurst, hsend] <;> exact hrun
  have hpend : ∀ pc, c.pending (s.bursting pc) = c.pending s := fun pc => rfl
  by_cases hmay : s.client.totscnt < c.iters ∧
      subU64 s.client.totscnt s.client.totccnt < c.client.txDepth
  · exact .inl (.trans hpost (hpend _).le (.of_posting rfl ⟨hmay.1, hmay.2, rfl⟩))
  have hrecv : c.Quietly s (s.bursting .pollRecv) := by
    refine hpost.trans (Quietly.client (k := 0) ?_)
    have hnot : ¬ c.Posting (s.bursting .post).client := fun hp => hmay ⟨hp.1, hp.2.1⟩
    exact if_neg hnot
  by_cases hr : 0 < s.client.port.recvCq
  · exact .inl (.trans hrecv (hpend _).le (.of_pollRecv rfl hr))
  have hsend : c.Quietly s (s.bursting (.pollSend 0)) := by
    refine hrecv.trans (Quietly.client (k := 0) ?_)
    simp [runIterLatBurst, BurstState.bursting]
  by_cases hq : 0 < s.client.port.sendCq
  · exact .inl (.trans hsend (hpend _).le (.of_pollSend rfl hb hq))
  exact .inr ⟨by omega, by omega, hmay⟩

/-- The server handles a ping that has arrived. -/
theorem Advances.of_handle {n : Nat} (hpc : s.server.pc = .handle (n + 1)) :
    c.Advances s := by
  by_cases hr : c.ReplyDue s.server ∧ c.HasSpace s.server
  · refine ⟨_, Quietly.server (k := 0) (y := { s.server with
        pc := .handle n
        rcnt := s.server.rcnt + 1
        scnt := s.server.scnt + 1
        port := { s.server.port with
          recvWqes := s.server.port.recvWqes + 1
          wire := s.server.port.wire + 1
          unacked := s.server.port.unacked + 1 } }) ?_, ?_⟩
    · simp only [runIterLatBurstServer, hpc, if_pos hr, BurstPort.postSend]
    · simp only [pending, hpc, BurstServerPc.left]
      omega
  · refine ⟨_, Quietly.server (k := 0) (y := { s.server with
        pc := .handle n
        rcnt := s.server.rcnt + 1
        port := { s.server.port with recvWqes := s.server.port.recvWqes + 1 } }) ?_, ?_⟩
    · simp only [runIterLatBurstServer, hpc, if_neg hr]
    · simp only [pending, hpc, BurstServerPc.left]
      omega

theorem Advances.of_serverHead (hpc : s.server.pc = .head) (hlt : s.server.rcnt < c.iters)
    (hb : 1 ≤ c.server.burstSize) (h : 0 < s.server.port.recvCq) : c.Advances s := by
  have h1 : c.Quietly s { s with server := { s.server with
      pc := .handle 1, port := { s.server.port with recvCq := s.server.port.recvCq - 1 } } } := by
    refine Quietly.server (k := 1) ?_
    have hk : 1 ≤ c.server.burstSize ∧ 1 ≤ s.server.port.recvCq := ⟨hb, h⟩
    simp only [runIterLatBurstServer, hpc, if_pos hlt, if_pos hk]
  refine .trans h1 ?_ (.of_handle (n := 0) rfl)
  simp only [pending, hpc, BurstServerPc.left]
  omega

theorem Advances.of_serverPollSend (hpc : s.server.pc = .pollSend) (hlt : s.server.rcnt < c.iters)
    (hb : 1 ≤ c.server.burstSize) (h : 0 < s.server.port.recvCq) : c.Advances s := by
  have h1 : c.Quietly s { s with server := { s.server with pc := .head } } := by
    refine Quietly.server (k := 0) ?_
    simp [runIterLatBurstServer, hpc]
  refine .trans h1 ?_ (.of_serverHead rfl hlt hb h)
  simp only [pending, hpc, BurstServerPc.left]
  omega

theorem Advances.of_recvCq (hpc : s.server.pc ≠ .done) (hlt : s.server.rcnt < c.iters)
    (hb : 1 ≤ c.server.burstSize) (h : 0 < s.server.port.recvCq) : c.Advances s := by
  cases hp : s.server.pc with
  | head => exact .of_serverHead hp hlt hb h
  | handle left =>
    cases left with
    | zero =>
      have h1 : c.Quietly s { s with server := { s.server with pc := .pollSend } } := by
        refine Quietly.server (k := 0) ?_
        simp [runIterLatBurstServer, hp]
      refine .trans h1 ?_ (.of_serverPollSend rfl hlt hb h)
      simp only [pending, hp, BurstServerPc.left]
      omega
    | succ left => exact .of_handle hp
  | pollSend => exact .of_serverPollSend hp hlt hb h
  | done => exact absurd hp hpc

/-- A client whose loop test fails leaves the loop, unless it posts before. -/
theorem Advances.of_not_running (hpc : s.client.pc ≠ .done) (hrun : ¬ c.Running s.client) :
    c.Advances s ∨ c.Quietly s { s with client := { s.client with pc := .done } } := by
  rcases Quietly.toHead (c := c) hpc with hadv | hhead
  · exact .inl hadv
  right
  refine hhead.trans (Quietly.client (k := 0) ?_)
  exact if_neg hrun

end BurstConfig

namespace BurstInv

open BurstConfig

variable {c : BurstConfig} {s t : BurstState}

/-- Nothing stops the pings from being sent and received. -/
theorem advances_of_pings (h : BurstInv c s) (hbc : 1 ≤ c.client.burstSize)
    (hbs : 1 ≤ c.server.burstSize) (hlt : s.server.rcnt < c.iters) : c.Advances s := by
  have hping := h.pings
  have hack := h.acks
  have htx := c.client.txDepth_pos
  by_cases hu : 0 < s.client.port.unacked
  · exact .of_completePing hu
  have hnot : s.server.pc ≠ .done := fun hd => by
    have := h.serverDone hd
    omega
  by_cases hr : 0 < s.server.port.recvCq
  · exact .of_recvCq hnot hlt hbs hr
  by_cases hleft : 0 < s.server.pc.left
  · cases hp : s.server.pc with
    | handle left =>
      rw [hp] at hleft
      obtain ⟨n, rfl⟩ := Nat.exists_eq_succ_of_ne_zero (Nat.pos_iff_ne_zero.mp hleft)
      exact .of_handle hp
    | head | pollSend | done => simp [hp, BurstServerPc.left] at hleft
  by_cases hw : 0 < s.client.port.wire
  · have hrecv := h.serverRecv
    have hrx := c.server.rxDepth_pos
    exact .of_deliverPing hw (by omega)
  have hrun : c.Running s.client := .inr (by omega)
  rcases Advances.of_running (fun hd => h.clientDone hd hrun) hrun hbc with hadv | ⟨-, hq, hmay⟩
  · exact hadv
  refine absurd ⟨by omega, ?_⟩ hmay
  rw [subU64_of_le (by omega)]
  omega

/-- The client can do something or leave its loop, or it waits for replies only. -/
theorem advances_of_client (h : BurstInv c s) (hbc : 1 ≤ c.client.burstSize)
    (hpc : s.client.pc ≠ .done) :
    c.Advances s ∨ (∃ t, c.Quietly s t ∧ t.client.pc = .done) ∨
      (s.client.totscnt = c.iters ∧ s.client.port.recvCq = 0 ∧
        s.client.totrcnt < c.iters / c.replyEvery) := by
  have hack := h.acks
  have htotal := h.total
  have htx := c.client.txDepth_pos
  by_cases hu : 0 < s.client.port.unacked
  · exact .inl (.of_completePing hu)
  by_cases hrun : c.Running s.client
  · rcases Advances.of_running hpc hrun hbc with hadv | ⟨hr, hq, hmay⟩
    · exact .inl hadv
    have heq : s.client.totscnt = s.client.totccnt := by omega
    have hall : s.client.totscnt = c.iters := by
      by_contra hne
      refine hmay ⟨by omega, ?_⟩
      rw [subU64_of_le heq.ge]
      omega
    rcases hrun with hrun | hrun
    · exact .inr (.inr ⟨hall, hr, hall ▸ hrun⟩)
    · omega
  · rcases Advances.of_not_running hpc hrun with hadv | hdone
    · exact .inl hadv
    · exact .inr (.inl ⟨_, hdone, rfl⟩)

theorem reaches_done (h : BurstInv c s) (hfit : c.AllFit)
    (hreply : s.server.scnt = s.server.rcnt / c.replyEvery) (hpc : s.client.pc ≠ .done) :
    c.Advances s ∨ ∃ t, c.Quietly s t ∧ t.client.pc = .done := by
  obtain ⟨hbc, hfit⟩ := hfit
  rcases h.advances_of_client hbc hpc with hadv | hdone | ⟨hall, hr, hwait⟩
  · exact .inl hadv
  · exact .inr hdone
  left
  rcases hfit with hzero | ⟨hbs, -⟩
  · omega
  by_cases hlt : s.server.rcnt < c.iters
  · exact h.advances_of_pings hbc hbs hlt
  have hping := h.pings
  have hrcnt : s.server.rcnt = c.iters := by omega
  have hans := h.answers
  have hrecv := h.clientRecv
  have hrx := c.client.rxDepth_pos
  rw [hreply, hrcnt] at hans
  exact .of_deliverReply (by omega) (by omega)

end BurstInv

end Perftest
