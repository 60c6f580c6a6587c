import Perftest.MainScripts

namespace Perftest

open Lockstep

namespace MainProgram

/-- What a test runs, with or without `--write_with_imm` and `--send_with_imm`. -/
def verbs : MainProgram → List VerbType
  | sendBw | sendLat => [.send, .sendImm]
  | writeBw | writeLat => [.write, .writeImm]
  | readBw | readLat => [.read]
  | atomicBw | atomicLat => [.atomic]

/-- The sides exchange reports that may have the parts of the two ports. -/
def reportsPorts (p : MainParameters) : MainProgram → Bool
  | writeBw => p.verb = .write && (!p.duplex || p.testMethod ≠ .runInfinitely)
  | readBw | atomicBw => !p.duplex || p.testMethod ≠ .runInfinitely
  | sendBw | sendLat | writeLat | readLat | atomicLat => false

end MainProgram

/-- What two sides that passed the negotiation have in common. -/
structure SameTest (p q : MainParameters) : Prop where
  verb : q.verb = p.verb
  connectionType : q.connectionType = p.connectionType
  testMethod : q.testMethod = p.testMethod
  testType : q.testType = p.testType
  size : q.size = p.size
  duplex : q.duplex = p.duplex
  numOfQps : q.numOfQps = p.numOfQps
  dataValidation : q.dataValidation = p.dataValidation
  currMtu : q.currMtu = p.currMtu
  version : 4.6 ≤ p.version ∧ 4.6 ≤ q.version
  remVersion : 5.33 ≤ p.remVersion ∧ 5.33 ≤ q.remVersion
  connected : p.connectionless = false ∧ q.connectionless = false
  watched : ∀ size, p.checkAliveExited size = false ∧ q.checkAliveExited size = false

/-- What the parameters of a test that `force_dependecies` lets pass satisfy. -/
structure MainSettled (prog : MainProgram) (p : MainParameters) : Prop where
  verb : p.verb ∈ prog.verbs
  infinitely : p.testMethod = .runInfinitely → p.duplex = true → hasRecvComp p.verb = false
  latency : p.testMethod = .runInfinitely → prog.preset.tst = .bw
  validation : p.dataValidation = true →
    p.testMethod = .runRegular ∧ (p.verb = .write ∨ p.verb = .read) ∧ prog.preset.tst = .bw
  perPort : p.reportPerPort = true → p.testType = .duration

/-- The two sides of a test, with their roles. -/
structure MainSides (prog : MainProgram) (p q : MainParameters) : Prop extends SameTest p q where
  settled : MainSettled prog p
  settledPeer : MainSettled prog q
  client : p.machine = .client
  server : q.machine = .server

section Pieces

variable {p q : MainParameters} {verb : VerbType}

@[simp] theorem quiet_connectSteps : Quiet (waitsFor verb) p.connectSteps := by
  simp [MainParameters.connectSteps, waitsFor]

@[simp] theorem quiet_setUpAgain : Quiet (waitsFor verb) p.setUpAgain := by
  simp [MainParameters.setUpAgain, waitsFor]

@[simp] theorem quiet_warmUpSteps (size : Nat) : Quiet (waitsFor verb) (p.warmUpSteps size) := by
  simp [MainParameters.warmUpSteps, waitsFor]

@[simp] theorem quiet_ctxSetSendWqesSteps (size : Nat) :
    Quiet (waitsFor verb) (p.ctxSetSendWqesSteps size) := by
  simp [MainParameters.ctxSetSendWqesSteps, waitsFor]

theorem quiet_validates {r : Bool} {a : MainAct} (h : waitsFor verb a = []) :
    Quiet (waitsFor verb) (p.validates r a) := by
  simp [MainParameters.validates, h]

@[simp] theorem quiet_runLoopSteps {l : DataLoop} :
    Quiet (waitsFor verb) (runLoopSteps l) ↔ waitsFor verb (.leave l) = [] :=
  ⟨fun h => (quiet_act.mp (quiet_act.mp h).2).1,
    fun h => quiet_act.mpr ⟨rfl, quiet_act.mpr ⟨h, quiet_nil⟩⟩⟩

/-- Two loops that wait at most for each other. -/
theorem fits_runLoopSteps {l m : DataLoop} (hl : ∀ x ∈ waitsFor verb (.leave l), x = .enter m)
    (hm : ∀ x ∈ waitsFor verb (.leave m), x = .enter l) :
    Fits (waitsFor verb) (runLoopSteps l) (runLoopSteps m) := Fits.pair rfl rfl hl hm

theorem fits_ctxHandShake (qp : Nat) : Fits (waitsFor verb) (ctxHandShake qp) (ctxHandShake qp) :=
  Fits.exchange

theorem fits_if {c c' : Prop} [Decidable c] [Decidable c'] {C S : MainScript} (hc : c ↔ c')
    (h : c → Fits (waitsFor verb) C S) :
    Fits (waitsFor verb) (if c then C else []) (if c' then S else []) := by
  by_cases hd : c
  · rw [if_pos hd, if_pos (hc.mp hd)]
    exact h hd
  · rw [if_neg hd, if_neg (hc.not.mp hd)]
    exact quiet_nil.fits quiet_nil

/-- What both sides close with. -/
theorem fits_close : Fits (waitsFor verb) (ctxCloseConnection ++ [.act .destroyCtx])
    (ctxCloseConnection ++ [.act .destroyCtx]) :=
  (fits_ctxHandShake 0).append
    ((quiet_act.mpr ⟨rfl, quiet_nil⟩).fits (quiet_act.mpr ⟨rfl, quiet_nil⟩))

/-- A one-sided run of WRITE exchanges nothing. -/
theorem quiet_writeBwRuns (hv : p.verb = .write) (hd : p.duplex = false) :
    Quiet (waitsFor .write) p.writeBwRuns := by
  have hloop : ∀ size, Quiet (waitsFor .write) (p.writeBwLoop size) := by
    intro size
    cases hdv : p.dataValidation <;>
      simp [MainParameters.writeBwLoop, hv, hdv, waitsFor, hasRecvComp]
  cases hm : p.testMethod <;>
    simp [MainParameters.writeBwRuns, hm, MainParameters.writeBwAll, MainParameters.writeBwRegular,
      MainParameters.writeBwInfinitely, hloop, hv, hd, waitsFor, hasRecvComp]

theorem quiet_readBwLoop (p : MainParameters) (size : Nat) :
    Quiet (waitsFor .read) (p.readBwLoop size) := by
  cases hdv : p.dataValidation <;> simp [MainParameters.readBwLoop, hdv, waitsFor, hasRecvComp]

theorem quiet_readBwRuns (hd : p.duplex = false) : Quiet (waitsFor .read) p.readBwRuns := by
  have hloop := quiet_readBwLoop p
  have hval : ∀ r, Quiet (waitsFor .read) (p.validates r .dataValidationStart) :=
    fun r => quiet_validates rfl
  cases hm : p.testMethod <;>
    simp [MainParameters.readBwRuns, hm, MainParameters.readBwAll, MainParameters.readBwRegular,
      hloop, hval, hd, waitsFor, hasRecvComp]

theorem quiet_atomicBwRuns (hd : p.duplex = false) : Quiet (waitsFor .atomic) p.atomicBwRuns := by
  cases hm : p.testMethod <;> simp [MainParameters.atomicBwRuns, hm, hd, waitsFor, hasRecvComp]

theorem fits_sendBwWqes (size : Nat) :
    Fits (waitsFor verb) (p.sendBwWqes size) (q.sendBwWqes size) :=
  Quiet.fits (by simp [MainParameters.sendBwWqes, waitsFor])
    (by simp [MainParameters.sendBwWqes, waitsFor])

/-- The watchdog ends no loop, so every size runs. -/
theorem sendBwSizes_eq (hw : ∀ size, p.checkAliveExited size = false) (sizes : List Nat) :
    p.sendBwSizes sizes = sizes.flatMap p.sendBwAll := by
  induction sizes with
  | nil => rfl
  | cons size sizes ih =>
    simp only [MainParameters.sendBwSizes, hw size, Bool.false_eq_true, if_false, ih,
      List.flatMap_cons]

end Pieces

section Same

variable {p q : MainParameters} {verb : VerbType}

theorem SameTest.fits_reports (h : SameTest p q) (hr : q.reportPerPort = p.reportPerPort) :
    Fits (waitsFor verb) p.reports q.reports := by
  have he : q.reports = p.reports := by
    simp only [MainParameters.reports, xchgBwReports, reportFields, hr, h.remVersion.1,
      h.remVersion.2, if_true]
  have hf : Free (waitsFor verb) p.reports := by
    intro a ha
    simp [MainParameters.reports, xchgBwReports] at ha
  rw [he]
  exact Fits.of_free rfl hf hf

theorem SameTest.fits_ctxHandShakes (h : SameTest p q) :
    Fits (waitsFor verb) (ctxHandShakes p.numOfQps) (ctxHandShakes q.numOfQps) := by
  rw [h.numOfQps]
  exact Fits.flatMap fun qp _ => fits_ctxHandShake qp

theorem fits_createResources (hw : q.workRdmaCm = p.workRdmaCm) :
    Fits (waitsFor verb) p.createResources q.createResources := by
  unfold MainParameters.createResources
  rw [hw]
  refine Fits.ite (fun _ => ?_) fun _ => ?_
  · exact ((fits_ctxHandShake 0).append
      (Quiet.fits (by simp [waitsFor]) (by simp [waitsFor]))).append
      (fits_ctxHandShake 0)
  · exact Quiet.fits (by simp [waitsFor]) (by simp [waitsFor])

theorem SameTest.fits_connectBw (h : SameTest p q) (hw : q.workRdmaCm = p.workRdmaCm)
    {ip iq : MainScript} (hp : Quiet (waitsFor verb) ip) (hq : Quiet (waitsFor verb) iq) :
    Fits (waitsFor verb) (p.connectBw ip) (q.connectBw iq) := by
  refine ((((((Fits.append (Fits.append (fits_createResources hw) (hp.fits hq)) ?_).append
    h.fits_ctxHandShakes).append (Quiet.fits ?_ ?_)).append (Quiet.fits ?_ ?_)).append
    h.fits_ctxHandShakes).append (fits_ctxHandShake 0))
  · exact Quiet.fits (by simp [waitsFor]) (by simp [waitsFor])
  all_goals simp

theorem SameTest.fits_connectLat (h : SameTest p q) (hw : q.workRdmaCm = p.workRdmaCm) :
    Fits (waitsFor verb) p.connectLat q.connectLat := by
  refine ((((((Fits.append (fits_createResources hw) ?_).append (fits_ctxHandShake 0)).append
    h.fits_ctxHandShakes).append (Quiet.fits ?_ ?_)).append (Quiet.fits ?_ ?_)).append
    h.fits_ctxHandShakes).append (fits_ctxHandShake 0)
  · exact Quiet.fits (by simp [waitsFor]) (by simp [waitsFor])
  all_goals simp

theorem SameTest.fits_connectSend (h : SameTest p q) (hw : q.workRdmaCm = p.workRdmaCm) :
    Fits (waitsFor verb) p.connectSend q.connectSend := by
  have hshake : ∀ {C S : MainScript}, Fits (waitsFor verb) C S →
      Fits (waitsFor verb) (if p.connectionless then [] else C)
        (if q.connectionless then [] else S) := by
    intro C S hCS
    simpa [h.connected.1, h.connected.2] using hCS
  refine (((((Fits.append (fits_createResources hw) ?_).append (hshake h.fits_ctxHandShakes)).append
    (Quiet.fits ?_ ?_)).append (hshake (fits_ctxHandShake 0))).append (Quiet.fits ?_ ?_)).append
    (hshake h.fits_ctxHandShakes)
  · exact Quiet.fits (by simp [waitsFor]) (by simp [waitsFor])
  all_goals simp

/-- The ends of a one-sided test: the client runs and tells the server, which waits. -/
theorem SameTest.fits_waitForClient (h : SameTest p q) (hr : q.reportPerPort = p.reportPerPort)
    {runs start stop : MainScript} (hruns : Quiet (waitsFor verb) runs)
    (hstart : Quiet (waitsFor verb) start) (hstop : Quiet (waitsFor verb) stop) :
    Fits (waitsFor verb) (runs ++ p.tellServer ++ ctxCloseConnection ++ [.act .destroyCtx])
      (q.waitForClient start stop) := by
  have he : runs ++ p.tellServer ++ ctxCloseConnection ++ [.act .destroyCtx] =
      runs ++ ctxHandShake 0 ++ p.reports ++ ctxCloseConnection ++ [] ++ [.act .destroyCtx] := by
    simp [MainParameters.tellServer]
  rw [he]
  unfold MainParameters.waitForClient
  iterate 5 refine Fits.append ?_ ?_
  · exact hruns.fits hstart
  · exact fits_ctxHandShake 0
  · exact h.fits_reports hr
  · exact fits_ctxHandShake 0
  · exact quiet_nil.fits hstop
  · exact Quiet.fits (by simp [waitsFor]) (by simp [waitsFor])

theorem SameTest.sizeMaxPow (h : SameTest p q) : q.sizeMaxPow = p.sizeMaxPow := by
  simp only [MainParameters.sizeMaxPow, h.connectionType, h.currMtu, h.size]

end Same

namespace MainSides

variable {p q : MainParameters}

/-- Reports of a run by iterations have no ports. -/
theorem reportPerPort {prog : MainProgram} (h : MainSides prog p q) (ht : p.testType ≠ .duration) :
    q.reportPerPort = p.reportPerPort := by
  have hp : p.reportPerPort = false := by simpa using mt h.settled.perPort ht
  have hq : q.reportPerPort = false := by simpa using mt h.settledPeer.perPort (h.testType ▸ ht)
  rw [hp, hq]

section WriteBw

variable (h : MainSides .writeBw p q)

include h

theorem writeBw_verb : p.verb = .write ∨ p.verb = .writeImm := by
  simpa [MainProgram.verbs] using h.settled.verb

theorem writeBw_validation (hv : p.verb = .writeImm) : p.dataValidation = false := by
  by_contra hc
  have hd := (h.settled.validation (by simpa using hc)).2.1
  rw [hv] at hd
  simp at hd

/-- The loops for one size, with the two roles. -/
theorem fits_writeBwLoop (size : Nat) :
    Fits (waitsFor p.verb) (p.writeBwLoop size) (q.writeBwLoop size) := by
  rcases h.writeBw_verb with hv | hv
  · cases hdv : p.dataValidation <;> refine Quiet.fits ?_ ?_ <;>
      simp [MainParameters.writeBwLoop, hv, h.verb, h.dataValidation, hdv, runLoopSteps, waitsFor,
        hasRecvComp]
  · cases hdx : p.duplex with
    | true =>
      simp only [MainParameters.writeBwLoop, h.duplex, hdx, h.verb, hv]
      exact fits_runLoopSteps (by simp [waitsFor]) (by simp [waitsFor])
    | false =>
      simp only [MainParameters.writeBwLoop, h.duplex, hdx, h.verb, hv, h.dataValidation,
        h.writeBw_validation hv, h.client, h.server, MainParameters.isClient,
        MainParameters.isServer]
      exact fits_runLoopSteps (by simp [waitsFor, hasRecvComp]) (by simp [waitsFor])

/-- The reports of a bidirectional run. -/
theorem fits_writeBwReports (hm : p.testMethod ≠ .runInfinitely)
    (hr : MainProgram.writeBw.reportsPorts p = true → q.reportPerPort = p.reportPerPort) :
    Fits (waitsFor p.verb)
      (if p.duplex && (p.verb ≠ .writeImm || p.testType ≠ .duration) then p.reports else [])
      (if q.duplex && (q.verb ≠ .writeImm || q.testType ≠ .duration) then q.reports else []) := by
  rw [h.duplex, h.verb, h.testType]
  refine fits_if Iff.rfl fun hc => ?_
  rcases h.writeBw_verb with hv | hv
  · exact h.fits_reports (hr (by simp [MainProgram.reportsPorts, hv, hm]))
  · exact h.fits_reports (h.reportPerPort (by simp_all))

theorem fits_writeBwAll (hm : p.testMethod ≠ .runInfinitely)
    (hr : MainProgram.writeBw.reportsPorts p = true → q.reportPerPort = p.reportPerPort)
    (size : Nat) :
    Fits (waitsFor p.verb) (p.writeBwAll size) (q.writeBwAll size) := by
  iterate 6 refine Fits.append ?_ ?_
  · exact Quiet.fits (by simp) (by simp)
  · exact Quiet.fits (by simp [waitsFor]) (by simp [waitsFor])
  · exact Quiet.fits (by simp) (by simp)
  · exact fits_if (by simp [h.duplex, h.verb]) fun _ => fits_ctxHandShake 0
  · exact h.fits_writeBwLoop size
  · exact fits_if (by simp [h.duplex, h.verb, h.version]) fun _ => fits_ctxHandShake 0
  · exact h.fits_writeBwReports hm hr

theorem fits_writeBwRuns
    (hr : MainProgram.writeBw.reportsPorts p = true → q.reportPerPort = p.reportPerPort) :
    Fits (waitsFor p.verb) p.writeBwRuns q.writeBwRuns := by
  unfold MainParameters.writeBwRuns
  rw [h.testMethod]
  cases hm : p.testMethod with
  | runAll => exact Fits.flatMap fun size _ => h.fits_writeBwAll (by simp [hm]) hr size
  | runRegular =>
    unfold MainParameters.writeBwRegular
    rw [h.size]
    iterate 7 refine Fits.append ?_ ?_
    · exact Quiet.fits (by simp) (by simp)
    · exact Quiet.fits (by simp [waitsFor]) (by simp [waitsFor])
    · exact Quiet.fits (by simp) (by simp)
    · exact Quiet.fits (by simp [waitsFor]) (by simp [waitsFor])
    · exact fits_if (by simp [h.duplex, h.verb]) fun _ => fits_ctxHandShake 0
    · exact h.fits_writeBwLoop p.size
    · exact fits_if (by simp [h.duplex, h.dataValidation]) fun _ => fits_ctxHandShake 0
    · exact h.fits_writeBwReports (by simp [hm]) hr
  | runInfinitely =>
    have hdx : p.verb = .writeImm → p.duplex = false := by
      intro hv
      by_contra hc
      have := h.settled.infinitely hm (by simpa using hc)
      simp [hv, hasRecvComp] at this
    unfold MainParameters.writeBwInfinitely
    rw [h.size]
    refine Fits.append (Fits.append ?_ ?_) ?_
    · exact Quiet.fits (by simp [waitsFor]) (by simp [waitsFor])
    · exact fits_if (by simp [h.verb]) fun _ => fits_ctxHandShake 0
    · simp only [MainParameters.isClient, MainParameters.isServer, h.client, h.server, h.verb]
      rcases h.writeBw_verb with hv | hv
      · simpa [hv] using
          Quiet.fits (by simp [waitsFor, hasRecvComp]) (by simp [waitsFor, hasRecvComp])
      · simpa [hv] using fits_runLoopSteps (by simp [waitsFor, hasRecvComp]) (by simp [waitsFor])

theorem fits_writeBw (hw : q.workRdmaCm = p.workRdmaCm)
    (hr : MainProgram.writeBw.reportsPorts p = true → q.reportPerPort = p.reportPerPort) :
    Fits (waitsFor p.verb) p.writeBw q.writeBw := by
  unfold MainParameters.writeBw
  refine Fits.append (h.fits_connectBw hw ?_ ?_) ?_
  · exact quiet_validates rfl
  · exact quiet_validates rfl
  by_cases hx : p.verb = .write ∧ p.duplex = false
  · obtain ⟨hv, hd⟩ := hx
    have hr' := hr (by simp [MainProgram.reportsPorts, hv, hd])
    simp only [MainParameters.isServer, MainParameters.isClient, h.client, h.server, h.verb, hv,
      h.duplex, hd]
    have hruns : Quiet (waitsFor .write) (p.writeBwRuns ++ p.validates false .dataValidationStop) :=
      quiet_append.mpr ⟨quiet_writeBwRuns hv hd, quiet_validates rfl⟩
    simpa using h.fits_waitForClient hr' hruns (quiet_validates rfl) (quiet_validates rfl)
  · have hx' : p.verb = .write → p.duplex = true := by simpa using hx
    have hp : ∀ role : Bool, (role && p.verb = .write && !p.duplex) = false := by simp_all
    have hq : ∀ role : Bool, (role && q.verb = .write && !q.duplex) = false := by
      simp_all [h.verb, h.duplex]
    simp only [hp, hq, Bool.false_eq_true, if_false]
    iterate 4 refine Fits.append ?_ ?_
    · exact h.fits_writeBwRuns hr
    · exact (quiet_validates rfl).fits (quiet_validates rfl)
    · exact quiet_nil.fits quiet_nil
    · exact fits_ctxHandShake 0
    · exact Quiet.fits (by simp [waitsFor]) (by simp [waitsFor])

end WriteBw

section ReadBw

variable (h : MainSides .readBw p q)

include h

theorem readBw_verb : p.verb = .read := by
  simpa [MainProgram.verbs] using h.settled.verb

theorem fits_readBwReports (hm : p.testMethod ≠ .runInfinitely)
    (hr : MainProgram.readBw.reportsPorts p = true → q.reportPerPort = p.reportPerPort) :
    Fits (waitsFor .read) (if p.duplex then p.reports else [])
      (if q.duplex then q.reports else []) := by
  rw [h.duplex]
  exact fits_if Iff.rfl fun _ => h.fits_reports (hr (by simp [MainProgram.reportsPorts, hm]))

theorem fits_readBwAll (hm : p.testMethod ≠ .runInfinitely)
    (hr : MainProgram.readBw.reportsPorts p = true → q.reportPerPort = p.reportPerPort)
    (size : Nat) :
    Fits (waitsFor .read) (p.readBwAll size) (q.readBwAll size) := by
  iterate 5 refine Fits.append ?_ ?_
  · exact Quiet.fits (by simp [waitsFor]) (by simp [waitsFor])
  · exact Quiet.fits (by simp) (by simp)
  · exact fits_if (by simp [h.duplex]) fun _ => fits_ctxHandShake 0
  · exact (quiet_readBwLoop p size).fits (quiet_readBwLoop q size)
  · exact fits_if (by simp [h.duplex, h.version]) fun _ => fits_ctxHandShake 0
  · exact h.fits_readBwReports hm hr

theorem fits_readBwRuns
    (hr : MainProgram.readBw.reportsPorts p = true → q.reportPerPort = p.reportPerPort) :
    Fits (waitsFor .read) p.readBwRuns q.readBwRuns := by
  unfold MainParameters.readBwRuns
  rw [h.testMethod]
  cases hm : p.testMethod with
  | runAll => exact Fits.flatMap fun size _ => h.fits_readBwAll (by simp [hm]) hr size
  | runRegular =>
    iterate 6 refine Fits.append ?_ ?_
    · exact Quiet.fits (by simp [waitsFor]) (by simp [waitsFor])
    · exact Quiet.fits (by simp) (by simp)
    · exact (quiet_validates rfl).fits (quiet_validates rfl)
    · exact fits_if (by simp [h.duplex]) fun _ => fits_ctxHandShake 0
    · exact (quiet_readBwLoop p _).fits (quiet_readBwLoop q _)
    · exact fits_if (by simp [h.duplex, h.dataValidation]) fun _ => fits_ctxHandShake 0
    · exact h.fits_readBwReports (by simp [hm]) hr
  | runInfinitely =>
    exact Quiet.fits (by simp [waitsFor, hasRecvComp]) (by simp [waitsFor, hasRecvComp])

theorem fits_readBw (hw : q.workRdmaCm = p.workRdmaCm)
    (hr : MainProgram.readBw.reportsPorts p = true → q.reportPerPort = p.reportPerPort) :
    Fits (waitsFor p.verb) p.readBw q.readBw := by
  rw [h.readBw_verb]
  unfold MainParameters.readBw
  refine Fits.append (h.fits_connectBw hw ?_ ?_) ?_
  · exact quiet_validates rfl
  · exact quiet_validates rfl
  cases hd : p.duplex with
  | false =>
    simp only [MainParameters.isServer, MainParameters.isClient, h.client, h.server, h.duplex, hd]
    have hruns : Quiet (waitsFor .read) (p.readBwRuns ++
        p.validates (true || false) .dataValidationStop) :=
      quiet_append.mpr ⟨quiet_readBwRuns hd, quiet_validates rfl⟩
    simpa using h.fits_waitForClient (hr (by simp [MainProgram.reportsPorts, hd])) hruns quiet_nil
      quiet_nil
  | true =>
    simp only [h.duplex, hd, Bool.not_true, Bool.and_false, Bool.false_eq_true, if_false]
    iterate 4 refine Fits.append ?_ ?_
    · exact h.fits_readBwRuns hr
    · exact (quiet_validates rfl).fits (quiet_validates rfl)
    · exact quiet_nil.fits quiet_nil
    · exact fits_ctxHandShake 0
    · exact Quiet.fits (by simp [waitsFor]) (by simp [waitsFor])

end ReadBw

section AtomicBw

variable (h : MainSides .atomicBw p q)

include h

theorem fits_atomicBwRuns
    (hr : MainProgram.atomicBw.reportsPorts p = true → q.reportPerPort = p.reportPerPort)
    (hd : p.duplex = true) : Fits (waitsFor .atomic) p.atomicBwRuns q.atomicBwRuns := by
  have hone : p.testMethod ≠ .runInfinitely → Fits (waitsFor .atomic)
      (p.warmUpSteps p.size ++ ctxHandShake 0 ++ runLoopSteps (.runIterBw p.size) ++ p.reports)
      (q.warmUpSteps q.size ++ ctxHandShake 0 ++ runLoopSteps (.runIterBw q.size) ++
        q.reports) := by
    intro hm
    iterate 3 refine Fits.append ?_ ?_
    · exact Quiet.fits (by simp) (by simp)
    · exact fits_ctxHandShake 0
    · exact Quiet.fits (by simp [waitsFor, hasRecvComp]) (by simp [waitsFor, hasRecvComp])
    · exact h.fits_reports (hr (by simp [MainProgram.reportsPorts, hm]))
  refine Fits.append (Quiet.fits (by simp [waitsFor]) (by simp [waitsFor])) ?_
  rw [h.testMethod]
  cases hm : p.testMethod with
  | runAll => simpa [hd, h.duplex] using hone (by simp [hm])
  | runRegular => simpa [hd, h.duplex] using hone (by simp [hm])
  | runInfinitely =>
    exact Quiet.fits (by simp [waitsFor, hasRecvComp]) (by simp [waitsFor, hasRecvComp])

theorem fits_atomicBw (hw : q.workRdmaCm = p.workRdmaCm)
    (hr : MainProgram.atomicBw.reportsPorts p = true → q.reportPerPort = p.reportPerPort) :
    Fits (waitsFor p.verb) p.atomicBw q.atomicBw := by
  have hv : p.verb = .atomic := by simpa [MainProgram.verbs] using h.settled.verb
  rw [hv]
  unfold MainParameters.atomicBw
  refine Fits.append (h.fits_connectBw hw quiet_nil quiet_nil) ?_
  cases hd : p.duplex with
  | false =>
    simp only [MainParameters.isServer, MainParameters.isClient, h.client, h.server, h.duplex, hd]
    simpa using h.fits_waitForClient (hr (by simp [MainProgram.reportsPorts, hd]))
      (quiet_atomicBwRuns hd) quiet_nil quiet_nil
  | true =>
    simp only [h.duplex, hd, Bool.not_true, Bool.and_false, Bool.false_eq_true, if_false]
    iterate 3 refine Fits.append ?_ ?_
    · exact h.fits_atomicBwRuns hr hd
    · exact quiet_nil.fits quiet_nil
    · exact fits_ctxHandShake 0
    · exact Quiet.fits (by simp [waitsFor]) (by simp [waitsFor])

end AtomicBw

section SendBw

variable (h : MainSides .sendBw p q)

include h

theorem sendBw_verb : hasRecvComp p.verb = true := by
  have hv := h.settled.verb
  simp only [MainProgram.verbs, List.mem_cons, List.not_mem_nil, or_false] at hv
  rcases hv with hv | hv <;> rw [hv] <;> rfl

/-- The loops for one size, with the two roles, and the reports. -/
theorem fits_sendBwLoop (size : Nat) :
    Fits (waitsFor p.verb) (p.sendBwLoop size) (q.sendBwLoop size) := by
  unfold MainParameters.sendBwLoop
  rw [h.duplex, h.testType]
  refine Fits.append ?_ (fits_if Iff.rfl fun hc => h.fits_reports (h.reportPerPort (by simp_all)))
  · cases p.duplex with
    | true => exact fits_runLoopSteps (by simp [waitsFor]) (by simp [waitsFor])
    | false =>
      simp only [MainParameters.isClient, h.client, h.server]
      exact fits_runLoopSteps (by simp [waitsFor, h.sendBw_verb]) (by simp [waitsFor])

theorem fits_sendBwAll (size : Nat) :
    Fits (waitsFor p.verb) (p.sendBwAll size) (q.sendBwAll size) :=
  (((fits_sendBwWqes size).append (fits_ctxHandShake 0)).append (h.fits_sendBwLoop size)).append
    (fits_ctxHandShake 0)

theorem fits_sendBwRuns : Fits (waitsFor p.verb) p.sendBwRuns q.sendBwRuns := by
  unfold MainParameters.sendBwRuns
  rw [h.testMethod]
  cases hm : p.testMethod with
  | runAll =>
    rw [h.sizeMaxPow, sendBwSizes_eq fun size => (h.watched size).1,
      sendBwSizes_eq fun size => (h.watched size).2]
    exact Fits.flatMap fun size _ => h.fits_sendBwAll size
  | runRegular =>
    rw [h.size]
    exact ((fits_sendBwWqes p.size).append (fits_ctxHandShake 0)).append
      (h.fits_sendBwLoop p.size)
  | runInfinitely =>
    have hc := h.connected
    unfold MainParameters.sendBwInfinitely
    rw [h.size]
    refine Fits.append (Fits.append ?_ ?_) ?_
    · exact Quiet.fits (by simp [waitsFor]) (by simp [waitsFor])
    · simpa [hc] using fits_ctxHandShake 0
    · simp only [MainParameters.isClient, MainParameters.isServer, h.client, h.server]
      exact fits_runLoopSteps (by simp [waitsFor, h.sendBw_verb]) (by simp [waitsFor])

theorem fits_sendBw (hw : q.workRdmaCm = p.workRdmaCm) :
    Fits (waitsFor p.verb) p.sendBw q.sendBw := by
  unfold MainParameters.sendBw
  iterate 3 refine Fits.append ?_ ?_
  · exact h.fits_connectSend hw
  · exact h.fits_sendBwRuns
  · exact fits_ctxHandShake 0
  · exact Quiet.fits (by simp [waitsFor]) (by simp [waitsFor])

end SendBw

theorem fits_sendLat (h : MainSides .sendLat p q) (hw : q.workRdmaCm = p.workRdmaCm) :
    Fits (waitsFor p.verb) p.sendLat q.sendLat := by
  have hrun : ∀ size, Fits (waitsFor p.verb) (MainParameters.sendLatRun size)
      (MainParameters.sendLatRun size) := fun size =>
    (Fits.append (Quiet.fits (by simp [waitsFor]) (by simp [waitsFor]))
      (fits_ctxHandShake 0)).append
      (fits_runLoopSteps (by simp [waitsFor]) (by simp [waitsFor]))
  unfold MainParameters.sendLat
  iterate 4 refine Fits.append ?_ ?_
  · exact h.fits_connectSend hw
  · exact Quiet.fits (by simp [waitsFor]) (by simp [waitsFor])
  · unfold MainParameters.sendLatRuns
    rw [h.testMethod, h.sizeMaxPow, h.size]
    exact Fits.ite (fun _ => Fits.flatMap fun size _ => hrun size) fun _ => hrun p.size
  · exact fits_ctxHandShake 0
  · exact Quiet.fits (by simp [waitsFor]) (by simp [waitsFor])

theorem fits_writeLat (h : MainSides .writeLat p q) (hw : q.workRdmaCm = p.workRdmaCm) :
    Fits (waitsFor p.verb) p.writeLat q.writeLat := by
  have hrun : ∀ posts posts' size, Fits (waitsFor p.verb) (p.writeLatRun posts size)
      (q.writeLatRun posts' size) := by
    intro posts posts' size
    unfold MainParameters.writeLatRun
    rw [h.verb]
    refine Fits.ite (fun _ => ?_) fun _ =>
      fits_runLoopSteps (by simp [waitsFor]) (by simp [waitsFor])
    refine (Fits.append (Quiet.fits ?_ ?_) (fits_ctxHandShake 0)).append
      (fits_runLoopSteps (by simp [waitsFor]) (by simp [waitsFor]))
    · simp [waitsFor]
    · simp [waitsFor]
  unfold MainParameters.writeLat
  iterate 3 refine Fits.append ?_ ?_
  · exact h.fits_connectLat hw
  · exact Quiet.fits (by simp [waitsFor]) (by simp [waitsFor])
  · unfold MainParameters.writeLatRuns
    rw [h.testMethod, h.size]
    exact Fits.ite (fun _ => Fits.flatMap fun size _ => hrun _ _ size) fun _ => hrun _ _ p.size
  · exact Quiet.fits (by simp [waitsFor]) (by simp [waitsFor])

theorem fits_readLat (h : MainSides .readLat p q) (hw : q.workRdmaCm = p.workRdmaCm) :
    Fits (waitsFor p.verb) p.readLat q.readLat := by
  unfold MainParameters.readLat
  iterate 3 refine Fits.append ?_ ?_
  · exact h.fits_connectLat hw
  · simp only [MainParameters.isServer, h.client, h.server]
    exact Quiet.fits (by simp [MainParameters.readLatRuns, waitsFor]) (by simp)
  · exact fits_ctxHandShake 0
  · exact Quiet.fits (by simp [waitsFor]) (by simp [waitsFor])

theorem fits_atomicLat (h : MainSides .atomicLat p q) (hw : q.workRdmaCm = p.workRdmaCm) :
    Fits (waitsFor p.verb) p.atomicLat q.atomicLat := by
  unfold MainParameters.atomicLat
  iterate 3 refine Fits.append ?_ ?_
  · exact h.fits_connectLat hw
  · simp only [MainParameters.isServer, h.client, h.server]
    exact Quiet.fits (by simp [waitsFor]) (by simp)
  · exact fits_ctxHandShake 0
  · exact Quiet.fits (by simp [waitsFor]) (by simp [waitsFor])

/-- The scripts of the two sides fit when the sides agree on the connection and on the reports. -/
theorem fits {prog : MainProgram} (h : MainSides prog p q) (hw : q.workRdmaCm = p.workRdmaCm)
    (hr : prog.reportsPorts p = true → q.reportPerPort = p.reportPerPort) :
    Fits (waitsFor p.verb) (prog.script p) (prog.script q) := by
  cases prog with
  | sendBw => exact h.fits_sendBw hw
  | writeBw => exact h.fits_writeBw hw hr
  | readBw => exact h.fits_readBw hw hr
  | atomicBw => exact h.fits_atomicBw hw hr
  | sendLat => exact h.fits_sendLat hw
  | writeLat => exact h.fits_writeLat hw
  | readLat => exact h.fits_readLat hw
  | atomicLat => exact h.fits_atomicLat hw

end MainSides

end Perftest
