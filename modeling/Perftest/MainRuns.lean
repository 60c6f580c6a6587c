import Perftest.CreditPeers
import Perftest.MainChoices

namespace Perftest

open Lockstep Checked

/-- A test that has a verb has it with immediate data too. -/
theorem MainProgram.verbs_imm (prog : MainProgram) :
    (.write ∈ prog.verbs → .writeImm ∈ prog.verbs) ∧
      (.send ∈ prog.verbs → .sendImm ∈ prog.verbs) := by
  cases prog <;> decide

theorem MainProgram.preset_verb (prog : MainProgram) : prog.preset.verb ∈ prog.verbs := by
  cases prog <;> decide

section Parsed

variable {b : Build} {prog : MainProgram} {other : OtherParameters} {servername : Bool}
  {args : List Opt} {p d : PerftestParameters}

/-- The options leave the verb among those of the test. -/
theorem parseOpt_verbs {c c' : CoreParameters} {opt : Opt} (hc : c.verb ∈ prog.verbs)
    (h : parseOpt b c opt = .ok c') : c'.verb ∈ prog.verbs := by
  cases opt with
  | txDepth value | cqMod value | connection arg =>
    obtain ⟨n, -, rfl⟩ := map_eq_ok h
    exact hc
  | rxDepth value | qp value =>
    obtain ⟨n, -, h⟩ := bind_eq_ok h
    obtain ⟨-, rfl⟩ := ite_error_eq_ok h
    exact hc
  | size value suffix | iters value | duration value | bidirectional | mcg =>
    obtain ⟨-, rfl⟩ := ite_error_eq_ok h
    exact hc
  | writeWithImm =>
    obtain ⟨hn, rfl⟩ := ite_error_eq_ok h
    have hv : c.verb = .write := by
      by_contra hv
      exact hn (.inr hv)
    exact (prog.verbs_imm.1 (hv ▸ hc))
  | sendWithImm =>
    obtain ⟨hn, rfl⟩ := ite_error_eq_ok h
    have hv : c.verb = .send := by
      by_contra hv
      exact hn (.inr hv)
    exact (prog.verbs_imm.2 (hv ▸ hc))
  | _ =>
    cases h
    exact hc

theorem parsedParams_verbs (h : parsedParams b prog.preset other servername args = .ok p) :
    p.verb ∈ prog.verbs := by
  obtain ⟨c, hc, rfl⟩ := map_eq_ok h
  have hv : c.verb ∈ prog.verbs := parseArgs_invariant (P := fun c => c.verb ∈ prog.verbs)
    (fun _ _ _ hc h => parseOpt_verbs hc h) (prog.preset_verb) hc
  exact hv

/-- What no stage changes. -/
structure SameOptions (d p : PerftestParameters) : Prop where
  verb : d.verb = p.verb
  tst : d.tst = p.tst
  testMethod : d.testMethod = p.testMethod
  dataValidation : d.dataValidation = p.dataValidation

theorem updates_sameOptions {l : List (ParamStage × (CoreParameters → CoreParameters))}
    (hl : ∀ e ∈ l, e ∈ dependecies b) : SameOptions (updates (l.map Prod.fst) p) p := by
  refine updates_invariant (P := fun s => SameOptions s p) (fun st hst s hs => ?_)
    ⟨rfl, rfl, rfl, rfl⟩
  obtain ⟨e, he, rfl⟩ := List.mem_map.mp hst
  have hstep : SameOptions (e.1.update s) s := by
    have he' := hl e he
    simp only [dependecies, List.mem_cons, List.not_mem_nil, or_false] at he'
    rcases he' with rfl | rfl | rfl | rfl | rfl | rfl | rfl | rfl | rfl | rfl | rfl | rfl | rfl |
      rfl | rfl | rfl | rfl | rfl | rfl | rfl | rfl | rfl | rfl | rfl | rfl | rfl <;>
      exact ⟨rfl, rfl, rfl, rfl⟩
  exact ⟨hstep.verb.trans hs.verb, hstep.tst.trans hs.tst, hstep.testMethod.trans hs.testMethod,
    hstep.dataValidation.trans hs.dataValidation⟩

/-- The record at one of the stages, from which the rest leads to the result. -/
theorem forceDependecies_from (h : forceDependecies b p = .ok d) (n : Nat) :
    ∃ s, Passes (((dependecies b).drop n).map Prod.fst) s ∧
      d = updates (((dependecies b).drop n).map Prod.fst) s ∧ SameOptions d s := by
  obtain ⟨hp, hd⟩ := runAll_eq_ok_iff.mp h
  have hl : (dependecies b).map Prod.fst =
      ((dependecies b).take n).map Prod.fst ++ ((dependecies b).drop n).map Prod.fst := by
    rw [← List.map_append, List.take_append_drop]
  rw [hl] at hp hd
  have hd' := hd.trans (updates_append _ _ _)
  exact ⟨_, hp.append.2, hd', hd' ▸ updates_sameOptions fun e he => List.mem_of_mem_drop he⟩

/-- What `force_dependecies` refuses in an infinite run. -/
theorem forceDependecies_infinitely (h : forceDependecies b p = .ok d)
    (hm : d.testMethod = .runInfinitely) :
    d.tst ≠ .lat ∧ (d.duplex = true → hasRecvComp d.verb = false) := by
  obtain ⟨s, hp, hd, hs⟩ := forceDependecies_from h 15
  have hin : ∀ e ∈ (runInfinitelyStage b).checks s, e.1 = false := hp.1
  have hduplex : d.duplex = s.duplex := by
    rw [hd]
    rfl
  simp only [runInfinitelyStage, hs.testMethod.symm.trans hm, if_true, List.forall_mem_cons] at hin
  obtain ⟨-, hlat, hrecv, -⟩ := hin
  rw [hs.tst, hs.verb, hduplex]
  refine ⟨fun ht => ?_, fun hd => ?_⟩
  · simp [ht] at hlat
  · simpa [hd] using hrecv

theorem forceDependecies_validation (h : forceDependecies b p = .ok d)
    (hv : d.dataValidation = true) :
    d.testMethod = .runRegular ∧ (d.verb = .write ∨ d.verb = .read) ∧ d.tst = .bw := by
  obtain ⟨s, hp, -, hs⟩ := forceDependecies_from h 6
  have hin : ∀ e ∈ (dataValidationStage b).checks s, e.1 = false := hp.1
  simp only [dataValidationStage, hs.dataValidation.symm.trans hv, Bool.not_true,
    Bool.false_eq_true, if_false,
    List.forall_mem_cons] at hin
  obtain ⟨-, -, hwr, hbw, -, hinf, -, -, -, hall, -⟩ := hin
  rw [hs.testMethod, hs.verb, hs.tst]
  refine ⟨?_, ?_, by simpa using hbw⟩
  · cases hm : s.testMethod with
    | runRegular => rfl
    | runAll => simp [hm] at hall
    | runInfinitely => simp [hm] at hinf
  · by_contra hn
    rw [not_or] at hn
    simp [hn] at hwr

theorem forceDependecies_perPort (h : forceDependecies b p = .ok d)
    (hr : d.reportPerPort = true) : d.testType = .duration := by
  obtain ⟨s, hp, hd, -⟩ := forceDependecies_from h 22
  have hin : ∀ e ∈ reportStage.checks s, e.1 = false := hp.1
  have hkept : d.reportPerPort = s.reportPerPort ∧ d.testType = s.testType := by
    rw [hd]
    exact ⟨rfl, rfl⟩
  have hcheck := hin _ List.mem_cons_self
  rw [hkept.2]
  by_contra hn
  simp [hkept.1.symm.trans hr, hn] at hcheck

theorem parser_settled {r : MainParameters}
    (hd : parser b prog.preset other servername args = .ok d)
    (hverb : r.verb = d.verb) (hmethod : r.testMethod = d.testMethod)
    (hduplex : r.duplex = d.duplex) (hval : r.dataValidation = d.dataValidation)
    (hport : r.reportPerPort = d.reportPerPort) (htype : r.testType = d.testType) :
    MainSettled prog r := by
  obtain ⟨p, hp, hf⟩ := bind_eq_ok hd
  have hs : SameOptions d p := by
    rw [(runAll_eq_ok_iff.mp hf).2]
    exact updates_sameOptions fun e he => he
  refine ⟨?_, ?_, ?_, ?_, ?_⟩
  · rw [hverb, hs.verb]
    exact parsedParams_verbs hp
  · rw [hverb, hmethod, hduplex]
    exact fun hm => (forceDependecies_infinitely hf hm).2
  · rw [hmethod]
    intro hm
    have hlat := (forceDependecies_infinitely hf hm).1
    have htst : d.tst = prog.preset.tst := hs.tst.trans (parsedParams_tst hp)
    rw [htst] at hlat
    revert hlat
    cases prog <;> decide
  · rw [hverb, hmethod, hval]
    intro hv
    obtain ⟨hrun, hwr, hbw⟩ := forceDependecies_validation hf hv
    exact ⟨hrun, hwr, (hs.tst.trans (parsedParams_tst hp)).symm.trans hbw⟩
  · rw [hport, htype]
    exact forceDependecies_perPort hf

end Parsed

/-- What the link and the MTU of the port leave of a record that the parser accepted: the size of a
message can shrink. -/
structure Launched (d p : PerftestParameters) : Prop where
  verb : p.verb = d.verb
  machine : p.machine = d.machine
  testMethod : p.testMethod = d.testMethod
  testType : p.testType = d.testType
  duplex : p.duplex = d.duplex
  dataValidation : p.dataValidation = d.dataValidation
  reportPerPort : p.reportPerPort = d.reportPerPort
  numOfQps : p.numOfQps = d.numOfQps
  txDepth : p.txDepth = d.txDepth
  size_le : p.size ≤ d.size

/-- One side of a test, behind `check_version_compatibility`, without the connectionless server and
with every receive loop left before the watchdog ends it. -/
structure MainSide (b : Build) (prog : MainProgram) (p : MainParameters) : Prop where
  accepted : ∃ other servername args d, parser b prog.preset other servername args = .ok d ∧
    Launched d p.toPerftestParameters
  compatible : 5.7 ≤ p.remVersion
  connected : p.connectionless = false
  watched : ∀ size, p.checkAliveExited size = false

/-- Two sides that connected, told each other their versions and the MTU, and passed the negotiation
with the parameters `p₀` and `q₀`. -/
structure MainPeers (prog : MainProgram) (p q : MainParameters) : Prop where
  client : ∃ b, MainSide b prog p
  server : ∃ b, MainSide b prog q
  roles : p.machine = .client ∧ q.machine = .server
  versions : p.remVersion = q.version ∧ q.remVersion = p.version
  currMtu : q.currMtu = p.currMtu
  negotiated : ∃ nb p₀ q₀, negotiate nb p₀ q₀ = .ok p.toNegotiationPeer ∧
    negotiate nb q₀ p₀ = .ok q.toNegotiationPeer

section Peers

variable {prog : MainProgram} {p q : MainParameters}

theorem MainSide.settled {b : Build} (h : MainSide b prog p) : MainSettled prog p := by
  obtain ⟨other, servername, args, d, hd, hl⟩ := h.accepted
  exact parser_settled hd hl.verb hl.testMethod hl.duplex hl.dataValidation hl.reportPerPort
    hl.testType

theorem MainSide.ranges {b : Build} (h : MainSide b prog p) : p.numOfQps ≤ 32768 ∧
    p.txDepth ≤ 15000 ∧ p.size < 2 ^ 31 := by
  obtain ⟨other, servername, args, d, hd, hl⟩ := h.accepted
  obtain ⟨c, hc, hf⟩ := bind_eq_ok hd
  obtain ⟨-, hq, ht, hs⟩ := CoreParameters.coreDependecies_ranges (parsedParams_inRange hc)
  have hcore := forceDependecies_core hf
  rw [← hcore] at hq ht hs
  exact ⟨hl.numOfQps ▸ hq, hl.txDepth ▸ ht, lt_of_le_of_lt hl.size_le hs⟩

/-- What the negotiation compares beyond the geometry of data validation. -/
theorem Agree.method {p q : NegotiationPeer} (h : Agree p q) :
    p.testMethod = q.testMethod ∧ p.testType = q.testType ∧ p.duplex = q.duplex := by
  have hmethod : ∀ x : CtxTestMethod, 0 ≤ x.toInt ∧ x.toInt < 256 ^ 4 := by
    intro x
    cases x <;> decide
  have htype : ∀ x : TestMethod, 0 ≤ x.toInt ∧ x.toInt < 256 ^ 4 := by
    intro x
    cases x <;> decide
  have hbool : ∀ x : Bool, 0 ≤ boolToInt x ∧ boolToInt x < 256 ^ 4 := by decide
  refine ⟨?_, ?_, ?_⟩
  · have hv := value_inj (h (symmetricField "test_method" .int fun p => p.testMethod.toInt)
      (by simp [symmetricFields])) (hmethod _) (hmethod _)
    revert hv
    simp only [symmetricField]
    cases p.testMethod <;> cases q.testMethod <;> decide
  · have hv := value_inj (h (symmetricField "test_type" .int fun p => p.testType.toInt)
      (by simp [symmetricFields])) (htype _) (htype _)
    revert hv
    simp only [symmetricField]
    cases p.testType <;> cases q.testType <;> decide
  · have hv := value_inj (h (symmetricField "duplex" .int fun p => boolToInt p.duplex)
      (by simp [symmetricFields])) (hbool _) (hbool _)
    revert hv
    simp only [symmetricField]
    cases p.duplex <;> cases q.duplex <;> decide

theorem MainPeers.sides (h : MainPeers prog p q) : MainSides prog p q := by
  obtain ⟨b, hp⟩ := h.client
  obtain ⟨b', hq⟩ := h.server
  obtain ⟨nb, p₀, q₀, hpq, hqp⟩ := h.negotiated
  obtain ⟨hagree, hpe⟩ := negotiate_eq_ok_iff.mp hpq
  obtain ⟨-, hqe⟩ := negotiate_eq_ok_iff.mp hqp
  have hpp : p.toPerftestParameters = p₀.toPerftestParameters := by
    rw [hpe]
    exact (settled_params nb p₀ q₀).1
  have hqq : q.toPerftestParameters = q₀.toPerftestParameters := by
    rw [hqe]
    exact (settled_params nb q₀ p₀).1
  obtain ⟨hmethod, htype, hduplex⟩ := hagree.method
  have hconn := hagree.connectionType
  have hpr := hp.ranges
  have hqr := hq.ranges
  rw [hpp] at hpr
  rw [hqq] at hqr
  obtain ⟨hqps, -, hsize, hverb, hval⟩ :=
    hagree.geometry hpr.1 hqr.1 hpr.2.1 hqr.2.1 hpr.2.2 hqr.2.2
  have hold : (4.6 : Rat) ≤ 5.7 ∧ (5.33 : Rat) ≤ 5.7 := by norm_num
  have hsame : q.verb = p.verb ∧ q.connectionType = p.connectionType ∧
      q.testMethod = p.testMethod ∧ q.testType = p.testType ∧ q.size = p.size ∧
      q.duplex = p.duplex ∧ q.numOfQps = p.numOfQps ∧ q.dataValidation = p.dataValidation := by
    rw [hpp, hqq]
    exact ⟨hverb.symm, hconn.symm, hmethod.symm, htype.symm, hsize.symm, hduplex.symm, hqps.symm,
      hval.symm⟩
  obtain ⟨hverb, hconn, hmethod, htype, hsize, hduplex, hqps, hval⟩ := hsame
  exact {
    verb := hverb, connectionType := hconn, testMethod := hmethod, testType := htype, size := hsize
    duplex := hduplex, numOfQps := hqps, dataValidation := hval, currMtu := h.currMtu
    version :=
      ⟨hold.1.trans (h.versions.2 ▸ hq.compatible), hold.1.trans (h.versions.1 ▸ hp.compatible)⟩
    remVersion := ⟨hold.2.trans hp.compatible, hold.2.trans hq.compatible⟩
    connected := ⟨hp.connected, hq.connected⟩
    watched := fun size => ⟨hp.watched size, hq.watched size⟩
    settled := hp.settled, settledPeer := hq.settled, client := h.roles.1, server := h.roles.2 }

end Peers

/-- The main function behind a negotiation, of version 6.31, on a port with an MTU of 4096. -/
def NegotiationPeer.main (p : NegotiationPeer) : MainParameters :=
  { p with performWarmUp := false, version := 6.31, remVersion := 6.31, currMtu := 5
           checkAliveExited := fun _ => false }

/-- The main function with the defaults against a peer. -/
theorem mainSide_settled {b : Build} {prog : MainProgram} {other : OtherParameters}
    {servername : Bool} {args : List Opt} {nb : NegotiationBuild} {d e : PerftestParameters}
    (hd : parser b prog.preset other servername args = .ok d) (hc : d.connectionless = false) :
    MainSide b prog (settled nb d.peer e.peer).main := by
  have h : (settled nb d.peer e.peer).main.toPerftestParameters = d :=
    (settled_params nb d.peer e.peer).1
  refine ⟨⟨other, servername, args, d, hd, ?_⟩, ?_, ?_, fun _ => rfl⟩
  · rw [h]
    exact ⟨rfl, rfl, rfl, rfl, rfl, rfl, rfl, rfl, rfl, Nat.le_refl _⟩
  · show (5.7 : Rat) ≤ 6.31
    norm_num
  · rw [h]
    exact hc

theorem exists_sendBwMains :
    ∃ p q, MainPeers .sendBw p q ∧ q.workRdmaCm = p.workRdmaCm := by
  have h : (sendBwParser true []).toOption.any (fun d =>
      (sendBwParser false []).toOption.any fun e => decide (Agree d.peer e.peer) &&
        d.machine = .client && e.machine = .server && !d.workRdmaCm && !e.workRdmaCm &&
          !d.connectionless && !e.connectionless) = true := by decide +kernel
  obtain ⟨d, hd, h⟩ := exists_of_toOption_any h
  obtain ⟨e, he, h⟩ := exists_of_toOption_any h
  simp only [Bool.and_eq_true, decide_eq_true_eq, Bool.not_eq_true'] at h
  obtain ⟨⟨⟨⟨⟨⟨ha, hdm⟩, hem⟩, hdw⟩, hew⟩, hdc⟩, hec⟩ := h
  have hdp := (settled_params ⟨false, false, 0⟩ d.peer e.peer).1
  have hep := (settled_params ⟨false, false, 0⟩ e.peer d.peer).1
  refine ⟨(settled ⟨false, false, 0⟩ d.peer e.peer).main,
    (settled ⟨false, false, 0⟩ e.peer d.peer).main, ?_, ?_⟩
  · refine ⟨⟨_, mainSide_settled hd hdc⟩, ⟨_, mainSide_settled he hec⟩, ⟨?_, ?_⟩, ⟨rfl, rfl⟩, rfl,
      ⟨false, false, 0⟩, d.peer, e.peer, negotiate_eq_ok_iff.mpr ⟨ha, rfl⟩,
      negotiate_eq_ok_iff.mpr ⟨ha.symm, rfl⟩⟩
    · exact (congrArg (·.machine) hdp).trans hdm
    · exact (congrArg (·.machine) hep).trans hem
  · exact ((congrArg (·.workRdmaCm) hep).trans hew).trans
      ((congrArg (·.workRdmaCm) hdp).trans hdw).symm

end Perftest
