import Perftest.MainRuns

namespace Perftest

open Lockstep

/-- The size of the messages of a loop. -/
def DataLoop.sentSize : DataLoop → Option Nat
  | .runIterBw size | .runIterBi size | .runIterBwInfinitely size | .runIterLatSend size
  | .runIterLatWriteImm size => some size
  | _ => none

/-- The size of the messages of a loop that take a receive of the peer. -/
def DataLoop.receivedSize (verb : VerbType) (l : DataLoop) : Option Nat :=
  if hasRecvComp verb then l.sentSize else none

namespace MainParameters

variable (p : MainParameters)

/-- The resources and the connection of a side. -/
def connected : List MainAct :=
  .setUpConnection ::
    if p.workRdmaCm then [.createRdmaCmConnection] else [.ctxInit, .ctxConnect]

/-- The receives for the messages of a loop of the peer; unsolicited writes with immediate data take
none where a test runs over all sizes. -/
def posted (l : DataLoop) : List MainAct :=
  match l.receivedSize p.verb with
  | some size =>
    if p.useUnsolicitedWrite && p.testMethod = .runAll then [] else [.ctxSetRecvWqes size]
  | none => []

/-- The validators that watch the buffer while the peer writes. -/
def watching : List MainAct :=
  if p.dataValidation && p.duplex then [.dataValidationStart] else []

end MainParameters

def entering : MainAct → List MainAct
  | .enter l => [.enter l]
  | _ => []

theorem not_mem_of_free {C : MainScript} (h : Free entering C) (l : DataLoop) :
    Step.act (.enter l) ∉ C :=
  fun hm => absurd (h _ hm) (List.cons_ne_nil _ _)

/-- What `y` owes before the peer enters a loop. -/
def Owes (f : DataLoop → List MainAct) (a b : MainAct) : Prop := ∃ l, a = .enter l ∧ b ∈ f l

theorem after_of_free {f : DataLoop → List MainAct} {C S : MainScript} (h : Free entering C) :
    After (Owes f) C S := by
  refine After.of_none ?_
  rintro a b ha ⟨l, rfl, -⟩
  exact not_mem_of_free h l ha

theorem after_of_nil {f : DataLoop → List MainAct} {C S : MainScript}
    (h : ∀ l, .act (.enter l) ∈ C → f l = []) : After (Owes f) C S := by
  refine After.of_none ?_
  rintro a b ha ⟨l, rfl, hb⟩
  rw [h l ha] at hb
  cases hb

/-- A loop behind an exchange, of what stands in front of the exchange. -/
theorem after_loop {f : DataLoop → List MainAct} {C C' S S' : MainScript}
    (hr : rounds (C ++ ctxHandShake 0) = rounds (S ++ ctxHandShake 0)) (hC : Free entering C)
    (h : ∀ l, .act (.enter l) ∈ C' → ∀ b ∈ f l, .act b ∈ S) :
    After (Owes f) (C ++ ctxHandShake 0 ++ C') (S ++ ctxHandShake 0 ++ S') := by
  rw [rounds_append, rounds_append] at hr
  refine After.exchange (Nat.add_right_cancel hr).ge ?_ ?_
  · rintro a b ha ⟨l, rfl, -⟩
    exact not_mem_of_free hC l ha
  · rintro a b ha ⟨l, rfl, hb⟩
    exact h l ha b hb

/-- Two sides with the same choices, whichever of them is the client. -/
structure MainPair (prog : MainProgram) (x y : MainParameters) : Prop where
  sides : MainSides prog x y ∨ MainSides prog y x
  workRdmaCm : y.workRdmaCm = x.workRdmaCm
  ports : prog.reportsPorts x = true → y.reportPerPort = x.reportPerPort

section Pairs

variable {prog : MainProgram} {x y : MainParameters}

theorem SameTest.symm (h : SameTest x y) : SameTest y x where
  verb := h.verb.symm
  connectionType := h.connectionType.symm
  testMethod := h.testMethod.symm
  testType := h.testType.symm
  size := h.size.symm
  duplex := h.duplex.symm
  numOfQps := h.numOfQps.symm
  dataValidation := h.dataValidation.symm
  currMtu := h.currMtu.symm
  version := h.version.symm
  remVersion := h.remVersion.symm
  connected := h.connected.symm
  watched size := (h.watched size).symm

theorem SameTest.reportsPorts (h : SameTest x y) : prog.reportsPorts y = prog.reportsPorts x := by
  cases prog <;> simp only [MainProgram.reportsPorts, h.verb, h.duplex, h.testMethod]

namespace MainPair

theorem same (h : MainPair prog x y) : SameTest x y :=
  h.sides.elim (fun h => h.toSameTest) fun h => h.toSameTest.symm

theorem settled (h : MainPair prog x y) : MainSettled prog x :=
  h.sides.elim (fun h => h.settled) fun h => h.settledPeer

theorem peer_of_client (h : MainPair prog x y) (hx : x.isClient = true) :
    y.isServer = true ∧ y.isClient = false := by
  rcases h.sides with hs | hs
  · simp [MainParameters.isServer, MainParameters.isClient, hs.server]
  · simp [MainParameters.isClient, hs.server] at hx

/-- Parts that fit for a client and a server have the same number of exchanges. -/
theorem rounds_eq (h : MainPair prog x y) {f : MainParameters → MainScript}
    (hf : ∀ p q, MainSides prog p q → q.workRdmaCm = p.workRdmaCm →
      (prog.reportsPorts p = true → q.reportPerPort = p.reportPerPort) →
      p.testMethod = x.testMethod → Fits (waitsFor p.verb) (f p) (f q)) :
    rounds (f x) = rounds (f y) := by
  rcases h.sides with hs | hs
  · exact (hf x y hs h.workRdmaCm h.ports rfl).rounds_eq
  · refine (hf y x hs h.workRdmaCm.symm (fun hr => (h.ports ?_).symm)
      h.same.testMethod).rounds_eq.symm
    rwa [← h.same.reportsPorts]

end MainPair

end Pairs

section Connection

variable {prog : MainProgram} {x y : MainParameters}

/-- Where the steps of a connection stand. -/
theorem connected_mem {S : MainScript} (hr : ∀ s ∈ y.createResources, s ∈ S)
    (hs : Step.act .setUpConnection ∈ S) (hc : ∀ s ∈ y.connectSteps, s ∈ S) :
    ∀ b ∈ y.connected, Step.act b ∈ S := by
  intro b hb
  rcases List.mem_cons.mp hb with rfl | hb
  · exact hs
  · cases hw : y.workRdmaCm with
    | true =>
      rw [hw, if_pos rfl, List.mem_singleton] at hb
      refine hr _ ?_
      simp [MainParameters.createResources, hw, hb]
    | false =>
      rw [hw, if_neg Bool.false_ne_true] at hb
      simp only [List.mem_cons, List.not_mem_nil, or_false] at hb
      rcases hb with rfl | rfl
      · exact hr _ (by simp [MainParameters.createResources, hw])
      · exact hc _ (by simp [MainParameters.connectSteps, hw])

@[simp] theorem enterless_handShakes (n : Nat) : Free entering (ctxHandShakes n) := by
  simp [ctxHandShakes, ctxHandShake]

@[simp] theorem enterless_createResources : Free entering x.createResources := by
  simp [MainParameters.createResources, ctxHandShake, entering]

@[simp] theorem enterless_connectSteps : Free entering x.connectSteps := by
  simp [MainParameters.connectSteps, entering]

@[simp] theorem enterless_setUpAgain : Free entering x.setUpAgain := by
  simp [MainParameters.setUpAgain, entering]

@[simp] theorem enterless_warmUpSteps (size : Nat) : Free entering (x.warmUpSteps size) := by
  simp [MainParameters.warmUpSteps, entering]

@[simp] theorem enterless_ctxSetSendWqesSteps (size : Nat) :
    Free entering (x.ctxSetSendWqesSteps size) := by
  simp [MainParameters.ctxSetSendWqesSteps, entering]

@[simp] theorem enterless_reports : Free entering x.reports := by
  intro a ha
  simp [MainParameters.reports, xchgBwReports] at ha

theorem after_connectBw {ip iq B B' : MainScript}
    (hr : rounds (x.connectBw ip) = rounds (y.connectBw iq)) (hp : Free entering ip) :
    After (Owes fun _ => y.connected) (x.connectBw ip ++ B) (y.connectBw iq ++ B') := by
  refine after_loop hr ?_ fun l _ => ?_
  · simp [hp, entering]
  · exact connected_mem (by simp +contextual) (by simp) (by simp +contextual)

theorem after_connectLat {B B' : MainScript} (hr : rounds x.connectLat = rounds y.connectLat) :
    After (Owes fun _ => y.connected) (x.connectLat ++ B) (y.connectLat ++ B') := by
  refine after_loop hr ?_ fun l _ => ?_
  · simp [entering, ctxHandShake]
  · exact connected_mem (by simp +contextual) (by simp) (by simp +contextual)

theorem after_connectSend (h : MainPair prog x y) {B B' : MainScript} :
    After (Owes fun _ => y.connected) (x.connectSend ++ B) (y.connectSend ++ B') := by
  have hx : x.connectSend ++ B = x.createResources ++ [.act .setUpConnection] ++
      ctxHandShakes x.numOfQps ++ x.connectSteps ++ ctxHandShake 0 ++
        (x.setUpAgain ++ ctxHandShakes x.numOfQps ++ B) := by
    simp [MainParameters.connectSend, h.same.connected]
  have hy : y.connectSend ++ B' = y.createResources ++ [.act .setUpConnection] ++
      ctxHandShakes y.numOfQps ++ y.connectSteps ++ ctxHandShake 0 ++
        (y.setUpAgain ++ ctxHandShakes y.numOfQps ++ B') := by
    simp [MainParameters.connectSend, h.same.connected]
  rw [hx, hy]
  refine after_loop ?_ ?_ fun l _ => ?_
  · have hq : ∀ z : MainParameters, Quiet (waitsFor .send) z.connectSteps :=
      fun z => quiet_connectSteps
    have hc : ∀ z : MainParameters, rounds z.connectSteps = 0 := fun z =>
      congrArg List.length (hq z).1
    simp [MainParameters.createResources, h.workRdmaCm, h.same.numOfQps, hc]
  · simp [entering]
  · exact connected_mem (by simp +contextual) (by simp) (by simp +contextual)

end Connection

section Bodies

variable {prog : MainProgram} {x y : MainParameters} {l : DataLoop} {b : MainAct}

/-- What a side does for a loop of its peer: it posts receives and starts its validators. -/
def MainParameters.serves (p : MainParameters) (l : DataLoop) : List MainAct :=
  p.posted l ++ p.watching

theorem mem_posted (hb : b ∈ y.posted l) : ∃ n, l.receivedSize y.verb = some n ∧
    b = .ctxSetRecvWqes n ∧ ¬ (y.useUnsolicitedWrite = true ∧ y.testMethod = .runAll) := by
  unfold MainParameters.posted at hb
  split at hb
  next n hn =>
    split at hb
    next => cases hb
    next hu => exact ⟨n, hn, List.mem_singleton.mp hb, by simpa using hu⟩
  next => cases hb

theorem mem_watching (hb : b ∈ y.watching) :
    b = .dataValidationStart ∧ y.dataValidation = true ∧ y.duplex = true := by
  unfold MainParameters.watching at hb
  split at hb
  next h =>
    rw [Bool.and_eq_true] at h
    exact ⟨List.mem_singleton.mp hb, h⟩
  next => cases hb

theorem enter_mem_runLoopSteps {m : DataLoop} : Step.act (.enter l) ∈ runLoopSteps m ↔ l = m := by
  simp [runLoopSteps]

theorem enter_not_mem_reports : Step.act (.enter l) ∉ x.reports :=
  not_mem_of_free enterless_reports l

/-- The loops of `send_bw` that send messages to receives. -/
theorem sendBwLoop_received {size n : Nat} (hl : Step.act (.enter l) ∈ x.sendBwLoop size)
    (hn : l.receivedSize x.verb = some n) : n = size ∧ (x.isClient = true ∨ x.duplex = true) := by
  have hloop : Step.act (.enter l) ∈ (if x.duplex then runLoopSteps (.runIterBi size)
      else if x.isClient then runLoopSteps (.runIterBw size)
      else runLoopSteps (.runIterBwServer size) : MainScript) := by
    rcases List.mem_append.mp hl with hl | hl
    · exact hl
    · split at hl
      next => exact absurd hl enter_not_mem_reports
      next => cases hl
  split at hloop
  next hd =>
    obtain rfl := enter_mem_runLoopSteps.mp hloop
    simp [DataLoop.receivedSize, DataLoop.sentSize] at hn
    exact ⟨hn.2.symm, .inr hd⟩
  next =>
    split at hloop
    next hc =>
      obtain rfl := enter_mem_runLoopSteps.mp hloop
      simp [DataLoop.receivedSize, DataLoop.sentSize] at hn
      exact ⟨hn.2.symm, .inl hc⟩
    next =>
      obtain rfl := enter_mem_runLoopSteps.mp hloop
      simp [DataLoop.receivedSize, DataLoop.sentSize] at hn

theorem MainPair.dataValidation_eq (h : MainPair prog x y) (hv : x.verb ≠ .write ∧ x.verb ≠ .read) :
    y.dataValidation = false := by
  rw [h.same.dataValidation]
  by_contra hc
  exact (h.settled.validation (by simpa using hc)).2.1.elim hv.1 hv.2

theorem MainPair.dataValidation_method (h : MainPair prog x y) (hm : x.testMethod ≠ .runRegular) :
    y.dataValidation = false := by
  rw [h.same.dataValidation]
  by_contra hc
  exact hm (h.settled.validation (by simpa using hc)).1

/-- Receives are all that a test without validation owes. -/
theorem mem_serves (hd : y.dataValidation = false) (hb : b ∈ y.serves l) : ∃ n,
    l.receivedSize y.verb = some n ∧ b = .ctxSetRecvWqes n ∧
      ¬ (y.useUnsolicitedWrite = true ∧ y.testMethod = .runAll) := by
  rcases List.mem_append.mp hb with hb | hb
  · exact mem_posted hb
  · exact absurd (mem_watching hb).2.1 (by simp [hd])

theorem MainPair.sendBw_dataValidation (h : MainPair .sendBw x y) : y.dataValidation = false := by
  refine h.dataValidation_eq ?_
  have hv := h.settled.verb
  simp only [MainProgram.verbs, List.mem_cons, List.not_mem_nil, or_false] at hv
  rcases hv with hv | hv <;> simp [hv]

/-- The receives of `send_bw` are posted in front of the exchange. -/
theorem MainPair.sendBwWqes_mem (h : MainPair .sendBw x y) {size : Nat}
    (hl : Step.act (.enter l) ∈ x.sendBwLoop size) :
    ∀ b ∈ y.serves l, Step.act b ∈ y.sendBwWqes size := by
  intro b hb
  obtain ⟨n, hn, rfl, -⟩ := mem_serves h.sendBw_dataValidation hb
  rw [h.same.verb] at hn
  obtain ⟨rfl, hx⟩ := sendBwLoop_received hl hn
  have hy : y.isServer = true ∨ y.duplex = true := by
    rcases hx with hx | hx
    · exact .inl (h.peer_of_client hx).1
    · exact .inr (h.same.duplex.trans hx)
  simp [MainParameters.sendBwWqes, hy]

theorem rounds_sendBwRun (h : MainPair .sendBw x y) (size : Nat) :
    rounds (x.sendBwWqes size ++ ctxHandShake 0) = rounds (y.sendBwWqes size ++ ctxHandShake 0) :=
  h.rounds_eq (f := fun p => p.sendBwWqes size ++ ctxHandShake 0) fun _ _ _ _ _ _ =>
    Fits.append (fits_sendBwWqes size) (fits_ctxHandShake 0)

/-- One size of `send_bw`, without the exchange at its end. -/
theorem after_sendBwRun (h : MainPair .sendBw x y) (size : Nat) :
    After (Owes y.serves) (x.sendBwWqes size ++ ctxHandShake 0 ++ x.sendBwLoop size)
      (y.sendBwWqes size ++ ctxHandShake 0 ++ y.sendBwLoop size) := by
  refine after_loop (rounds_sendBwRun h size) ?_ fun l hl => h.sendBwWqes_mem hl
  simp [MainParameters.sendBwWqes, entering]

theorem after_sendBwAll (h : MainPair .sendBw x y) (size : Nat) :
    After (Owes y.serves) (x.sendBwAll size) (y.sendBwAll size) := by
  refine After.append ?_ (after_sendBwRun h size) (after_of_free (by simp [ctxHandShake]))
  exact h.rounds_eq (f := fun p => p.sendBwWqes size ++ ctxHandShake 0 ++ p.sendBwLoop size)
    fun p q hs _ _ _ => ((fits_sendBwWqes size).append (fits_ctxHandShake 0)).append
      (hs.fits_sendBwLoop size)

theorem after_sendBwRuns (h : MainPair .sendBw x y) :
    After (Owes y.serves) x.sendBwRuns y.sendBwRuns := by
  unfold MainParameters.sendBwRuns
  rw [h.same.testMethod]
  cases hm : x.testMethod with
  | runAll =>
    rw [h.same.sizeMaxPow, sendBwSizes_eq fun size => (h.same.watched size).1,
      sendBwSizes_eq fun size => (h.same.watched size).2]
    refine After.flatMap (fun size _ => ?_) fun size _ => after_sendBwAll h size
    exact h.rounds_eq (f := fun p => p.sendBwAll size) fun p q hs _ _ _ => hs.fits_sendBwAll size
  | runRegular =>
    rw [h.same.size]
    exact after_sendBwRun h x.size
  | runInfinitely =>
    unfold MainParameters.sendBwInfinitely
    rw [h.same.size]
    simp only [h.same.connected, Bool.false_eq_true, if_false]
    refine after_loop ?_ ?_ fun l hl b hb => ?_
    · exact h.rounds_eq (f := fun p => (if p.isClient then [.act (.ctxSetSendWqes x.size)]
        else if p.isServer then [.act (.ctxSetRecvWqes x.size)] else []) ++ ctxHandShake 0)
        fun p q _ _ _ _ => Fits.append (Quiet.fits (by simp [waitsFor]) (by simp [waitsFor]))
          (fits_ctxHandShake 0)
    · simp [entering]
    · obtain ⟨n, hn, rfl, -⟩ := mem_serves h.sendBw_dataValidation hb
      split at hl
      next hx =>
        obtain rfl := enter_mem_runLoopSteps.mp hl
        simp only [DataLoop.receivedSize, DataLoop.sentSize, Option.ite_none_right_eq_some,
          Option.some.injEq] at hn
        obtain ⟨hy, hy'⟩ := h.peer_of_client hx
        simp [hy, hy', hn.2]
      next =>
        split at hl
        next =>
          obtain rfl := enter_mem_runLoopSteps.mp hl
          simp [DataLoop.receivedSize, DataLoop.sentSize] at hn
        next => cases hl

/-- What ends a script without another loop. -/
theorem after_end {f : DataLoop → List MainAct} {C S E E' : MainScript} (h : After (Owes f) C S)
    (hE : Free entering E) : After (Owes f) (C ++ E) (S ++ E') := by
  refine h.append_front ?_
  rintro a b ha ⟨l, rfl, -⟩
  exact absurd ha (not_mem_of_free hE l)

theorem after_sendBw (h : MainPair .sendBw x y) : After (Owes y.serves) x.sendBw y.sendBw := by
  refine after_end (after_end (After.append ?_ (after_of_free ?_) (after_sendBwRuns h)) ?_) ?_
  · exact h.rounds_eq (f := fun p => p.connectSend) fun p q hs hw _ _ => hs.fits_connectSend hw
  · simp [MainParameters.connectSend, ctxHandShake, entering]
  · simp [ctxCloseConnection, ctxHandShake]
  · simp [entering]

theorem serves_eq_nil (hv : hasRecvComp y.verb = false)
    (hd : y.dataValidation = false ∨ y.duplex = false) : y.serves l = [] := by
  have hp : y.posted l = [] := by
    simp [MainParameters.posted, DataLoop.receivedSize, hv]
  have hw : y.watching = [] := by
    rcases hd with hd | hd <;> simp [MainParameters.watching, hd]
  rw [MainParameters.serves, hp, hw]
  rfl

/-- A side owes nothing to a peer whose messages take no receives and are not watched. -/
theorem after_of_one_sided {C S : MainScript} (hv : hasRecvComp y.verb = false)
    (hd : y.dataValidation = false ∨ y.duplex = false) : After (Owes y.serves) C S :=
  after_of_nil fun _ _ => serves_eq_nil hv hd

theorem writeBwLoop_received {size n : Nat} (hv : x.verb = .writeImm)
    (hl : Step.act (.enter l) ∈ x.writeBwLoop size) (hn : l.sentSize = some n) :
    n = size ∧ (x.isClient = true ∨ x.duplex = true) := by
  unfold MainParameters.writeBwLoop at hl
  split at hl
  next hd =>
    obtain rfl := enter_mem_runLoopSteps.mp hl
    simp only [DataLoop.sentSize, Option.some.injEq] at hn
    simp only [hv, decide_true, Bool.and_true] at hd
    exact ⟨hn.symm, .inr hd⟩
  next =>
    split at hl
    next hc =>
      have hx : x.isClient = true := by simpa [hv] using hc
      obtain rfl := enter_mem_runLoopSteps.mp hl
      split at hn
      next => cases hn
      next =>
        simp only [DataLoop.sentSize, Option.some.injEq] at hn
        exact ⟨hn.symm, .inl hx⟩
    next =>
      split at hl
      next =>
        obtain rfl := enter_mem_runLoopSteps.mp hl
        cases hn
      next => cases hl

section WriteBw

variable (h : MainPair .writeBw x y)

include h

theorem MainPair.writeBw_verb : x.verb = .write ∨ x.verb = .writeImm := by
  simpa [MainProgram.verbs] using h.settled.verb

theorem MainPair.serves_or_duplex {size : Nat} (hv : x.verb = .writeImm)
    (hl : Step.act (.enter l) ∈ x.writeBwLoop size) (hb : b ∈ y.serves l) :
    b = .ctxSetRecvWqes size ∧ (y.isServer = true ∨ y.duplex = true) ∧
      ¬ (y.useUnsolicitedWrite = true ∧ y.testMethod = .runAll) := by
  have hd : y.dataValidation = false := h.dataValidation_eq (by simp [hv])
  obtain ⟨n, hn, rfl, hu⟩ := mem_serves hd hb
  simp only [DataLoop.receivedSize, Option.ite_none_right_eq_some] at hn
  obtain ⟨rfl, hx⟩ := writeBwLoop_received hv hl hn.2
  refine ⟨rfl, ?_, hu⟩
  rcases hx with hx | hx
  · exact .inl (h.peer_of_client hx).1
  · exact .inr (h.same.duplex.trans hx)

/-- One size of WRITE_IMM, where the receives are posted in front of the exchange. -/
theorem after_writeBwAll (hv : x.verb = .writeImm) (hm : x.testMethod = .runAll) (size : Nat) :
    After (Owes y.serves) (x.writeBwAll size) (y.writeBwAll size) := by
  have hy : y.verb = .writeImm := h.same.verb.trans hv
  have hmy : y.testMethod = .runAll := h.same.testMethod.trans hm
  unfold MainParameters.writeBwAll
  simp only [hv, hy, decide_true, Bool.or_true, Bool.true_or, if_true, Bool.true_and]
  refine after_end (after_end (after_loop ?_ ?_ fun l hl b hb => ?_) ?_) ?_
  · exact h.rounds_eq (f := fun p => p.ctxSetSendWqesSteps size ++
      (if !p.useUnsolicitedWrite && (p.isServer || p.duplex) then [.act (.ctxSetRecvWqes size)]
        else []) ++ [] ++ ctxHandShake 0) fun p q _ _ _ _ =>
      (((quiet_ctxSetSendWqesSteps size).fits (quiet_ctxSetSendWqesSteps size)).append
        (Quiet.fits (by simp [waitsFor]) (by simp [waitsFor]))).append
        (quiet_nil.fits quiet_nil) |>.append (fits_ctxHandShake 0)
  · simp [entering]
  · obtain ⟨rfl, hs, hu⟩ := h.serves_or_duplex hv hl hb
    have hu' : y.useUnsolicitedWrite = false := by simpa [hmy] using hu
    simp [hs, hu']
  · simp [ctxHandShake]
  · simp

theorem after_writeBwRegular : After (Owes y.serves) x.writeBwRegular y.writeBwRegular := by
  by_cases hone : x.verb = .write ∧ (y.dataValidation = false ∨ y.duplex = false)
  · exact after_of_one_sided (by rw [h.same.verb, hone.1]; rfl) hone.2
  have hboth : (x.duplex || decide (x.verb = .writeImm)) = true := by
    rcases h.writeBw_verb with hv | hv
    · simp_all [h.same.duplex]
    · simp [hv]
  have hy : (y.duplex || decide (y.verb = .writeImm)) = true := by
    rw [h.same.duplex, h.same.verb]
    exact hboth
  unfold MainParameters.writeBwRegular
  rw [hboth, hy, h.same.size]
  simp only [if_true]
  refine after_end (after_end (after_loop ?_ ?_ fun l hl b hb => ?_) ?_) ?_
  · exact h.rounds_eq (f := fun p => p.ctxSetSendWqesSteps x.size ++
      (if p.verb = .writeImm && (p.isServer || p.duplex) then [.act (.ctxSetRecvWqes x.size)]
        else []) ++
      (if p.verb ≠ .send && p.verb ≠ .writeImm then p.warmUpSteps x.size else []) ++
      (if p.dataValidation && p.duplex then [.act .dataValidationStart] else []) ++ ctxHandShake 0)
      fun p q _ _ _ _ => Fits.append (Quiet.fits (by simp [waitsFor]) (by simp [waitsFor]))
        (fits_ctxHandShake 0)
  · simp [entering]
  · rcases h.writeBw_verb with hv | hv
    · have hvy : y.verb = .write := h.same.verb.trans hv
      rcases List.mem_append.mp hb with hb | hb
      · obtain ⟨n, hn, -⟩ := mem_posted hb
        simp [DataLoop.receivedSize, hvy, hasRecvComp] at hn
      · obtain ⟨rfl, hd, hdx⟩ := mem_watching hb
        simp [hd, hdx]
    · obtain ⟨rfl, hs, -⟩ := h.serves_or_duplex hv hl hb
      have hvy : y.verb = .writeImm := h.same.verb.trans hv
      simp [hvy, hs]
  · simp [ctxHandShake]
  · simp

theorem after_writeBwInfinitely (hm : x.testMethod = .runInfinitely) :
    After (Owes y.serves) x.writeBwInfinitely y.writeBwInfinitely := by
  rcases h.writeBw_verb with hv | hv
  · exact after_of_one_sided (by rw [h.same.verb, hv]; rfl)
      (.inl (h.dataValidation_method (by simp [hm])))
  · have hvy : y.verb = .writeImm := h.same.verb.trans hv
    have hdx : x.duplex = false := by
      by_contra hc
      have hrecv := h.settled.infinitely hm (by simpa using hc)
      rw [hv] at hrecv
      cases hrecv
    unfold MainParameters.writeBwInfinitely
    rw [h.same.size]
    simp only [hv, hvy, if_true]
    refine after_loop ?_ ?_ fun l hl b hb => ?_
    · exact h.rounds_eq (f := fun p =>
        (if p.isClient || p.duplex then [.act (.ctxSetSendWqes x.size)]
          else if p.isServer && decide True then [.act (.ctxSetRecvWqes x.size)] else []) ++
            ctxHandShake 0) fun p q _ _ _ _ =>
        Fits.append (Quiet.fits (by simp [waitsFor]) (by simp [waitsFor])) (fits_ctxHandShake 0)
    · simp [entering]
    · obtain ⟨n, hn, rfl, -⟩ := mem_serves (h.dataValidation_eq (by simp [hv])) hb
      simp only [DataLoop.receivedSize, Option.ite_none_right_eq_some] at hn
      split at hl
      next hc =>
        have hx : x.isClient = true := by simpa using hc
        obtain rfl := enter_mem_runLoopSteps.mp hl
        obtain ⟨hy, hy'⟩ := h.peer_of_client hx
        simp only [DataLoop.sentSize, Option.some.injEq] at hn
        simp [hy, hy', h.same.duplex, hdx, hn.2]
      next =>
        split at hl
        next =>
          obtain rfl := enter_mem_runLoopSteps.mp hl
          simp [DataLoop.sentSize] at hn
        next => cases hl

theorem after_writeBwRuns : After (Owes y.serves) x.writeBwRuns y.writeBwRuns := by
  unfold MainParameters.writeBwRuns
  rw [h.same.testMethod]
  cases hm : x.testMethod with
  | runAll =>
    rcases h.writeBw_verb with hv | hv
    · exact after_of_one_sided (by rw [h.same.verb, hv]; rfl)
        (.inl (h.dataValidation_method (by simp [hm])))
    · refine After.flatMap (fun size _ => ?_) fun size _ => after_writeBwAll h hv hm size
      exact h.rounds_eq (f := fun p => p.writeBwAll size) fun p q hs _ hr hpm =>
        hs.fits_writeBwAll (by simp [hpm, hm]) hr size
  | runRegular => exact after_writeBwRegular h
  | runInfinitely => exact after_writeBwInfinitely h hm

theorem after_writeBw : After (Owes y.serves) x.writeBw y.writeBw := by
  by_cases hone : x.verb = .write ∧ (y.dataValidation = false ∨ y.duplex = false)
  · exact after_of_one_sided (by rw [h.same.verb, hone.1]; rfl) hone.2
  have hx : ∀ role : Bool, (role && x.verb = .write && !x.duplex) = false := by
    intro role
    rcases h.writeBw_verb with hv | hv <;> simp_all [h.same.duplex]
  have hy : ∀ role : Bool, (role && y.verb = .write && !y.duplex) = false := by
    rw [h.same.verb, h.same.duplex]
    exact hx
  unfold MainParameters.writeBw
  simp only [hx, hy, Bool.false_eq_true, if_false]
  refine After.append ?_ (after_of_free ?_) ?_
  · exact h.rounds_eq (f := fun p =>
      p.connectBw (p.validates (p.isServer || p.duplex) .dataValidationInit))
      fun p q hs hw _ _ => hs.fits_connectBw hw (quiet_validates rfl) (quiet_validates rfl)
  · simp [MainParameters.connectBw, MainParameters.validates, ctxHandShake, entering]
  · refine after_end (after_end (after_end (after_end (after_writeBwRuns h) ?_) ?_) ?_) ?_
    · simp [MainParameters.validates, entering]
    · simp
    · simp [ctxCloseConnection, ctxHandShake]
    · simp [entering]

end WriteBw

section ReadBw

variable (h : MainPair .readBw x y)

include h

theorem MainPair.readBw_verb : x.verb = .read := by
  simpa [MainProgram.verbs] using h.settled.verb

theorem after_readBwRegular (hd : y.dataValidation = true) (hdx : y.duplex = true) :
    After (Owes y.serves) x.readBwRegular y.readBwRegular := by
  have hxd : x.dataValidation = true := h.same.dataValidation.symm.trans hd
  have hxx : x.duplex = true := h.same.duplex.symm.trans hdx
  unfold MainParameters.readBwRegular
  rw [h.same.size]
  simp only [hxx, hdx, hd, hxd, Bool.and_self, if_true]
  refine after_end (after_end (after_loop ?_ ?_ fun l hl b hb => ?_) ?_) ?_
  · exact h.rounds_eq (f := fun p => [.act (.ctxSetSendWqes x.size)] ++ p.warmUpSteps x.size ++
      p.validates (p.isClient || true) .dataValidationStart ++ ctxHandShake 0) fun p q _ _ _ _ =>
      (((Quiet.fits (by simp [waitsFor]) (by simp [waitsFor])).append
        ((quiet_warmUpSteps x.size).fits (quiet_warmUpSteps x.size))).append
        ((quiet_validates rfl).fits (quiet_validates rfl))).append (fits_ctxHandShake 0)
  · simp [MainParameters.validates, entering]
  · have hvy : y.verb = .read := h.same.verb.trans h.readBw_verb
    rcases List.mem_append.mp hb with hb | hb
    · obtain ⟨n, hn, -⟩ := mem_posted hb
      simp [DataLoop.receivedSize, hvy, hasRecvComp] at hn
    · obtain ⟨rfl, -, -⟩ := mem_watching hb
      simp [MainParameters.validates, hd]
  · simp [ctxHandShake]
  · simp

theorem after_readBw : After (Owes y.serves) x.readBw y.readBw := by
  have hvy : y.verb = .read := h.same.verb.trans h.readBw_verb
  by_cases hone : y.dataValidation = false ∨ y.duplex = false
  · exact after_of_one_sided (by rw [hvy]; rfl) hone
  rw [not_or, Bool.not_eq_false, Bool.not_eq_false] at hone
  obtain ⟨hd, hdx⟩ := hone
  have hxx : x.duplex = true := h.same.duplex.symm.trans hdx
  have hm : x.testMethod = .runRegular := by
    by_contra hm
    rw [h.dataValidation_method hm] at hd
    cases hd
  have hruns : After (Owes y.serves) x.readBwRuns y.readBwRuns := by
    unfold MainParameters.readBwRuns
    rw [h.same.testMethod, hm]
    exact after_readBwRegular h hd hdx
  unfold MainParameters.readBw
  simp only [hxx, hdx, Bool.not_true, Bool.and_false, Bool.false_eq_true, if_false]
  refine After.append ?_ (after_of_free ?_) ?_
  · exact h.rounds_eq (f := fun p =>
      p.connectBw (p.validates (p.isClient || true) .dataValidationInit))
      fun p q hs hw _ _ => hs.fits_connectBw hw (quiet_validates rfl) (quiet_validates rfl)
  · simp [MainParameters.connectBw, MainParameters.validates, ctxHandShake, entering]
  · refine after_end (after_end (after_end (after_end hruns ?_) ?_) ?_) ?_
    · simp [MainParameters.validates, entering]
    · simp
    · simp [ctxCloseConnection, ctxHandShake]
    · simp [entering]

end ReadBw

/-- The latency tests validate nothing. -/
theorem MainPair.dataValidation_lat (h : MainPair prog x y) (ht : prog.preset.tst = .lat) :
    y.dataValidation = false := by
  rw [h.same.dataValidation]
  by_contra hc
  have hbw := (h.settled.validation (by simpa using hc)).2.2
  rw [ht] at hbw
  cases hbw

theorem enterless_connectSend : Free entering x.connectSend := by
  simp [MainParameters.connectSend, ctxHandShake, entering]

theorem enterless_connectLat : Free entering x.connectLat := by
  simp [MainParameters.connectLat, ctxHandShake, entering]

theorem after_sendLat (h : MainPair .sendLat x y) : After (Owes y.serves) x.sendLat y.sendLat := by
  have hrun : ∀ size, After (Owes y.serves) (MainParameters.sendLatRun size)
      (MainParameters.sendLatRun size) := by
    intro size
    refine after_loop rfl (by simp [entering]) fun l hl b hb => ?_
    obtain rfl := enter_mem_runLoopSteps.mp hl
    obtain ⟨n, hn, rfl, -⟩ := mem_serves (h.dataValidation_lat rfl) hb
    simp only [DataLoop.receivedSize, DataLoop.sentSize, Option.ite_none_right_eq_some,
      Option.some.injEq] at hn
    simp [hn.2]
  have hruns : After (Owes y.serves) x.sendLatRuns y.sendLatRuns := by
    unfold MainParameters.sendLatRuns
    rw [h.same.testMethod, h.same.sizeMaxPow, h.same.size]
    split
    next => exact After.flatMap (fun _ _ => rfl) fun size _ => hrun size
    next => exact hrun x.size
  refine after_end (after_end (After.append ?_ (after_of_free ?_) hruns) ?_) ?_
  · exact h.rounds_eq (f := fun p => p.connectSend ++ [.act (.ctxSetSendWqes p.size)])
      fun p q hs hw _ _ => (hs.fits_connectSend hw).append
        (Quiet.fits (by simp [waitsFor]) (by simp [waitsFor]))
  · simp [enterless_connectSend, entering]
  · simp [ctxCloseConnection, ctxHandShake]
  · simp [entering]

theorem after_writeLat (h : MainPair .writeLat x y) :
    After (Owes y.serves) x.writeLat y.writeLat := by
  have hv : x.verb = .write ∨ x.verb = .writeImm := by
    simpa [MainProgram.verbs] using h.settled.verb
  rcases hv with hv | hv
  · exact after_of_one_sided (by rw [h.same.verb, hv]; rfl) (.inl (h.dataValidation_lat rfl))
  have hvy : y.verb = .writeImm := h.same.verb.trans hv
  have hrun : ∀ posts posts' size, (x.testMethod = .runAll → y.useUnsolicitedWrite = false →
      posts' = true) → (x.testMethod ≠ .runAll → posts' = true) →
      After (Owes y.serves) (x.writeLatRun posts size) (y.writeLatRun posts' size) := by
    intro posts posts' size hall hone
    unfold MainParameters.writeLatRun
    rw [hv, hvy, if_pos rfl, if_pos rfl]
    refine after_loop ?_ ?_ fun l hl b hb => ?_
    · cases posts <;> cases posts' <;> rfl
    · simp [entering]
    · obtain rfl := enter_mem_runLoopSteps.mp hl
      obtain ⟨n, hn, rfl, hu⟩ := mem_serves (h.dataValidation_lat rfl) hb
      simp only [DataLoop.receivedSize, DataLoop.sentSize, Option.ite_none_right_eq_some,
        Option.some.injEq] at hn
      rw [h.same.testMethod] at hu
      have hp : posts' = true := by
        by_cases hm : x.testMethod = .runAll
        · exact hall hm (by simpa [hm] using hu)
        · exact hone hm
      simp [hp, hn.2]
  have hruns : After (Owes y.serves) x.writeLatRuns y.writeLatRuns := by
    unfold MainParameters.writeLatRuns
    rw [h.same.testMethod, h.same.size]
    split
    next hm =>
      refine After.flatMap (fun size _ => ?_) fun size _ => hrun _ _ size (fun _ hu => by simp [hu])
        fun hn => absurd hm hn
      unfold MainParameters.writeLatRun
      rw [hv, hvy]
      cases x.useUnsolicitedWrite <;> cases y.useUnsolicitedWrite <;> rfl
    next hm => exact hrun _ _ x.size (fun _ _ => rfl) fun _ => rfl
  refine after_end (After.append ?_ (after_of_free ?_) hruns) ?_
  · exact h.rounds_eq (f := fun p => p.connectLat ++ [.act (.ctxSetSendWqes p.size)])
      fun p q hs hw _ _ => (hs.fits_connectLat hw).append
        (Quiet.fits (by simp [waitsFor]) (by simp [waitsFor]))
  · simp [enterless_connectLat, entering]
  · simp [entering]

theorem MainPair.after_serves (h : MainPair prog x y) :
    After (Owes y.serves) (prog.script x) (prog.script y) := by
  have hone : ∀ v, x.verb = v → hasRecvComp v = false → y.dataValidation = false →
      After (Owes y.serves) (prog.script x) (prog.script y) := fun v hv hr hd =>
    after_of_one_sided (by rw [h.same.verb, hv]; exact hr) (.inl hd)
  have hverb := h.settled.verb
  cases prog with
  | sendBw => exact after_sendBw h
  | writeBw => exact after_writeBw h
  | readBw => exact after_readBw h
  | sendLat => exact after_sendLat h
  | writeLat => exact after_writeLat h
  | atomicBw =>
    have hv : x.verb = .atomic := by simpa [MainProgram.verbs] using hverb
    exact hone _ hv rfl (h.dataValidation_eq (by simp [hv]))
  | readLat =>
    have hv : x.verb = .read := by simpa [MainProgram.verbs] using hverb
    exact hone _ hv rfl (h.dataValidation_lat rfl)
  | atomicLat =>
    have hv : x.verb = .atomic := by simpa [MainProgram.verbs] using hverb
    exact hone _ hv rfl (h.dataValidation_lat rfl)

end Bodies

section Prepared

variable {prog : MainProgram} {x y : MainParameters}

theorem MainPair.after_connected (h : MainPair prog x y) :
    After (Owes fun _ => y.connected) (prog.script x) (prog.script y) := by
  have hinit : ∀ (p : MainParameters) r, Free entering (p.validates r .dataValidationInit) := by
    intro p r
    simp [MainParameters.validates, entering]
  have hlat : (∀ p q, MainSides prog p q → q.workRdmaCm = p.workRdmaCm →
      Fits (waitsFor p.verb) p.connectLat q.connectLat) →
      rounds x.connectLat = rounds y.connectLat :=
    fun hf => h.rounds_eq (f := fun p => p.connectLat) fun p q hs hw _ _ => hf p q hs hw
  cases prog with
  | sendBw =>
    have hassoc : ∀ p : MainParameters, MainProgram.sendBw.script p =
        p.connectSend ++ (p.sendBwRuns ++ ctxCloseConnection ++ [.act .destroyCtx]) := by
      intro p
      simp [MainProgram.script, MainParameters.sendBw]
    rw [hassoc, hassoc]
    exact after_connectSend h
  | sendLat =>
    have hassoc : ∀ p : MainParameters, MainProgram.sendLat.script p =
        p.connectSend ++ ([.act (.ctxSetSendWqes p.size)] ++ p.sendLatRuns ++ ctxCloseConnection ++
          [.act .destroyCtx]) := by
      intro p
      simp [MainProgram.script, MainParameters.sendLat]
    rw [hassoc, hassoc]
    exact after_connectSend h
  | writeBw =>
    exact after_connectBw (h.rounds_eq (f := fun p =>
      p.connectBw (p.validates (p.isServer || p.duplex) .dataValidationInit)) fun p q hs hw _ _ =>
        hs.fits_connectBw hw (quiet_validates rfl) (quiet_validates rfl)) (hinit x _)
  | readBw =>
    exact after_connectBw (h.rounds_eq (f := fun p =>
      p.connectBw (p.validates (p.isClient || p.duplex) .dataValidationInit)) fun p q hs hw _ _ =>
        hs.fits_connectBw hw (quiet_validates rfl) (quiet_validates rfl)) (hinit x _)
  | atomicBw =>
    exact after_connectBw (h.rounds_eq (f := fun p => p.connectBw []) fun p q hs hw _ _ =>
      hs.fits_connectBw hw quiet_nil quiet_nil) free_nil
  | writeLat =>
    have hassoc : ∀ p : MainParameters, MainProgram.writeLat.script p = p.connectLat ++
        ([.act (.ctxSetSendWqes p.size)] ++ p.writeLatRuns ++ [.act .destroyCtx]) := by
      intro p
      simp [MainProgram.script, MainParameters.writeLat]
    rw [hassoc, hassoc]
    exact after_connectLat (hlat fun p q hs hw => hs.fits_connectLat hw)
  | readLat =>
    have hassoc : ∀ p : MainParameters, MainProgram.readLat.script p = p.connectLat ++
        ((if p.isServer then [] else [.act (.ctxSetSendWqes p.size)] ++ p.readLatRuns) ++
          ctxCloseConnection ++ [.act .destroyCtx]) := by
      intro p
      simp [MainProgram.script, MainParameters.readLat]
    rw [hassoc, hassoc]
    exact after_connectLat (hlat fun p q hs hw => hs.fits_connectLat hw)
  | atomicLat =>
    have hassoc : ∀ p : MainParameters, MainProgram.atomicLat.script p = p.connectLat ++
        ((if p.isServer then [] else [.act (.ctxSetSendWqes p.size)] ++
          runLoopSteps (.runIterLat p.size)) ++ ctxCloseConnection ++ [.act .destroyCtx]) := by
      intro p
      simp [MainProgram.script, MainParameters.atomicLat]
    rw [hassoc, hassoc]
    exact after_connectLat (hlat fun p q hs hw => hs.fits_connectLat hw)

/-- What a side has done before its peer enters a loop: its resources and QPs are connected, the
receives for the messages of the loop are posted, and its validators watch. -/
def MainParameters.prepared (p : MainParameters) (l : DataLoop) : List MainAct :=
  p.connected ++ p.serves l

theorem MainPair.after_prepared (h : MainPair prog x y) :
    After (Owes y.prepared) (prog.script x) (prog.script y) := by
  rintro k a ha b ⟨l, rfl, hb⟩
  rcases List.mem_append.mp hb with hb | hb
  · exact h.after_connected k _ ha b ⟨l, rfl, hb⟩
  · exact h.after_serves k _ ha b ⟨l, rfl, hb⟩

end Prepared

theorem MainPeers.pairs {prog : MainProgram} {p q : MainParameters} (h : MainPeers prog p q)
    (hw : q.workRdmaCm = p.workRdmaCm)
    (hr : prog.reportsPorts p = true → q.reportPerPort = p.reportPerPort) :
    MainPair prog p q ∧ MainPair prog q p :=
  ⟨⟨.inl h.sides, hw, hr⟩,
    ⟨.inr h.sides, hw.symm, fun hq => (hr (h.sides.reportsPorts ▸ hq)).symm⟩⟩

end Perftest
