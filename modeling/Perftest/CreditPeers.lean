import Perftest.CreditRun
import Perftest.LayoutAgreement
import Perftest.SendParameters

namespace Perftest

open CMachine Checked

/-- The peers of a SEND bandwidth test: two accepted command lines whose parameters the negotiation
lets pass. -/
structure SendPeers (client server : NegotiationPeer) : Prop where
  client_accepted : ∃ b prog other servername args,
    parser b prog other servername args = .ok client.toPerftestParameters
  server_accepted : ∃ b prog other servername args,
    parser b prog other servername args = .ok server.toPerftestParameters
  negotiated : ∃ b p, negotiate b client server = .ok p
  bw : client.tst = .bw
  send : client.verb = .send

theorem SendPeers.rxDepth_le {client server : NegotiationPeer} (h : SendPeers client server) :
    client.rxDepth ≤ 2 ^ 31 := by
  obtain ⟨b, prog, other, servername, args, hp⟩ := h.client_accepted
  obtain ⟨c, hc, hd⟩ := parser_inRange hp
  have hv : hasRecvComp c.verb = true := by
    rw [← (CoreParameters.coreDependecies_kept c).1, ← hd, h.send]
    rfl
  rw [hd, CoreParameters.coreDependecies_rxDepth hv]
  exact CoreParameters.receiveDepth_le hc

theorem SendPeers.numOfQps_pos {client server : NegotiationPeer} (h : SendPeers client server) :
    1 ≤ client.numOfQps := by
  obtain ⟨b, prog, other, servername, args, hp⟩ := h.client_accepted
  obtain ⟨c, hc, hd⟩ := parser_inRange hp
  rw [hd, CoreParameters.coreDependecies_numOfQps]
  have := hc.qps_pos
  split <;> omega

theorem SendPeers.sound {client server : NegotiationPeer} (h : SendPeers client server)
    (hl : 1 ≤ client.postList) :
    (creditRun client.toCoreParameters server.toCoreParameters).Sound := by
  obtain ⟨b, prog, other, servername, args, hp⟩ := h.client_accepted
  have hlists := fun ht => parser_lists hp ht
  exact ⟨fun ht => le_trans (by decide) (hlists ht).1, fun ht => (hlists ht).2 hl, h.rxDepth_le⟩

/-- The credit flow of an infinite run, between peers whose window fits the receives. -/
theorem runIterBwInfinitely_credits {client server : NegotiationPeer} (h : SendPeers client server)
    (hf : (creditConfig client.toCoreParameters server.toCoreParameters).WindowFits) :
    CreditFlowOk (creditConfig client.toCoreParameters server.toCoreParameters) :=
  CreditConfig.creditFlowOk_of_windowFits h.numOfQps_pos hf h.rxDepth_le

/-- `ib_send_bw` with the options `args`. -/
def sendBwParser (servername : Bool) (args : List Opt) : Except String PerftestParameters :=
  parser { haveXrcd := true, haveMlx5dv := true, haveSrd := false, haveSrdQpSl := false
           haveAesXts := false, haveSigOffload := false, haveDcs := true, haveIbvWrApi := true
           haveCcUnprotectedAlloc := false, haveHnsdv := false, haveRegMrEx := false
           hostValidationRuntimeSupported := true, disableMlx5ScatterToCqe := false }
    ⟨.send, .bw, false⟩ {} servername args

/-- Both sides of a test with the options `args`. -/
theorem exists_sendPeers (args : List Opt) (r : CoreParameters → CoreParameters → Bool)
    (h : (sendBwParser true args).toOption.any (fun d =>
      (sendBwParser false args).toOption.any fun e =>
        decide (Agree d.peer e.peer) && decide (d.tst = .bw) && decide (d.verb = .send) &&
          r d.toCoreParameters e.toCoreParameters) = true) :
    ∃ d e, sendBwParser true args = .ok d ∧ sendBwParser false args = .ok e ∧
      SendPeers d.peer e.peer ∧ r d.toCoreParameters e.toCoreParameters = true := by
  obtain ⟨d, hd, h⟩ := exists_of_toOption_any h
  obtain ⟨e, he, h⟩ := exists_of_toOption_any h
  simp only [Bool.and_eq_true, decide_eq_true_eq] at h
  obtain ⟨⟨⟨ha, ht⟩, hv⟩, hr⟩ := h
  exact ⟨d, e, hd, he, ⟨⟨_, _, _, _, _, hd⟩, ⟨_, _, _, _, _, he⟩,
    ⟨⟨false, false, 0⟩, _, negotiate_eq_ok_iff.mpr ⟨ha, rfl⟩⟩, ht, hv⟩, hr⟩

/-- Without lists, a window between the credit period and the receives of the server fits. -/
theorem CreditConfig.windowFits_single {c : CreditConfig} (hs : c.useSrq = false)
    (hp : c.postList = 1) (hr : c.recvPostList = 1) (hk : 1 ≤ c.creditCnt)
    (ho : c.creditCnt < c.rxDepth) (hle : c.rxDepth ≤ c.serverRxDepth + 1) : c.WindowFits where
  queues := hs
  postList_pos := hp.ge
  recvPostList_pos := hr.ge
  creditCnt_pos := hk
  opens := by
    rw [hp, Nat.gcd_one_right]
    omega
  fits j := by
    simp only [hp, hr, Nat.div_one, Nat.mul_one]
    omega

theorem runIterBwInfinitely_credits_default : ∃ d e, sendBwParser true [.runInfinitely] = .ok d ∧
    sendBwParser false [.runInfinitely] = .ok e ∧ SendPeers d.peer e.peer ∧
      CreditFlowOk (creditConfig d.toCoreParameters e.toCoreParameters) := by
  obtain ⟨d, e, hd, he, hp, hr⟩ := exists_sendPeers [.runInfinitely]
    (fun d e => !(creditConfig d e).useSrq && decide ((creditConfig d e).postList = 1) &&
      decide ((creditConfig d e).recvPostList = 1) && decide (1 ≤ (creditConfig d e).creditCnt) &&
      decide ((creditConfig d e).creditCnt < (creditConfig d e).rxDepth) &&
      decide ((creditConfig d e).rxDepth ≤ (creditConfig d e).serverRxDepth + 1)) (by decide +kernel)
  simp only [Bool.and_eq_true, Bool.not_eq_true', decide_eq_true_eq] at hr
  obtain ⟨⟨⟨⟨⟨hs, hl⟩, hl'⟩, hk⟩, ho⟩, hle⟩ := hr
  exact ⟨d, e, hd, he, hp, runIterBwInfinitely_credits hp
    (CreditConfig.windowFits_single hs hl hl' hk ho hle)⟩

/-- The same of a run with its end. -/
theorem CreditRun.windowFits_single {c : CreditRun} (hs : c.useSrq = false) (hp : c.postList = 1)
    (hr : c.recvPostList = 1) (hk : 1 ≤ c.creditCnt) (ho : c.creditCnt < c.rxDepth)
    (hle : c.rxDepth ≤ c.serverRxDepth + 1) : c.WindowFits where
  postList_pos := hp.ge
  recvPostList_pos := hr.ge
  creditCnt_pos := hk
  opens k _ _ := by
    have : c.since k < c.creditCnt := Nat.mod_lt _ hk
    omega
  fits g _ := by
    simp only [reach, posted, repostsOf, CreditConfig.sizePerQp, hs, hp, hr, Nat.div_one,
      Nat.mul_one, Bool.false_eq_true, if_false]
    cases c.testType with
    | duration =>
      simp only [reduceCtorEq, if_false, if_true]
      omega
    | iterations =>
      simp only [reduceCtorEq, if_false, if_true]
      omega

/-- Three receives in a shared queue. -/
def threeSharedReceives : CreditConfig :=
  { numOfQps := 1, testType := .duration, txDepth := 128, cqMod := 1, postList := 1, rxDepth := 3
    serverTxDepth := 128, serverRxDepth := 3, recvPostList := 1, useSrq := true }

/-- `ib_send_bw --run_infinitely -r 3 --use-srq`: the server gives no credit, and the client stops
behind the second message. -/
theorem infiniteSrq_blocked : ∃ d e,
    sendBwParser true [.runInfinitely, .rxDepth 3, .useSrq] = .ok d ∧
      sendBwParser false [.runInfinitely, .rxDepth 3, .useSrq] = .ok e ∧
      SendPeers d.peer e.peer ∧
      ¬ CreditFlowOk (creditConfig d.toCoreParameters e.toCoreParameters) := by
  obtain ⟨d, e, hd, he, hp, hr⟩ := exists_sendPeers [.runInfinitely, .rxDepth 3, .useSrq]
    (fun d e => decide (creditConfig d e = threeSharedReceives)) (by decide +kernel)
  rw [decide_eq_true_eq] at hr
  refine ⟨d, e, hd, he, hp, fun hok => ?_⟩
  rw [hr] at hok
  obtain ⟨s, hs, hb⟩ := Transition.exists_of_run (· = threeSharedReceives.init)
    threeSharedReceives.act
    [.client, .client, .credit (.arrive 0), .credit (.arrive 0), .receive, .receive] _
    (fun s => decide (s.recvCq = []) && decide (s.server = .poll) &&
      decide (s.arrived 0 = s.scnt 0) && decide (s.unfetched 0 = 0) && decide (s.wire 0 = []) &&
      !threeSharedReceives.windowOpen s 0) rfl (by decide +kernel)
  simp only [Bool.and_eq_true, Bool.not_eq_true', decide_eq_true_eq] at hb
  obtain ⟨⟨⟨⟨⟨hcq, hpc⟩, ha⟩, hu⟩, hw⟩, hc⟩ := hb
  refine hok.free s hs ⟨hcq, hpc, fun q hq => ?_⟩
  have hq0 : q = 0 := Nat.lt_one_iff.mp hq
  rw [hq0]
  exact ⟨ha, hu, hw, hc⟩

end Perftest
