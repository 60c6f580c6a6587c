import Perftest.MainExchanges

namespace Perftest

open Lockstep

section Counts

variable {p q : MainParameters}

def isKeys : MainMessage → Bool
  | .keys _ => true
  | .report _ => false

/-- The exchanges of keys, the handshakes among them. -/
def shakes (C : MainScript) : Nat := (exchanges C).countP isKeys

@[simp] theorem shakes_append {C C' : MainScript} : shakes (C ++ C') = shakes C + shakes C' := by
  simp [shakes]

theorem shakes_append_congr {C C' D D' : MainScript} (h : shakes C = shakes C')
    (h' : shakes D = shakes D') : shakes (C ++ D) = shakes (C' ++ D') := by
  rw [shakes_append, shakes_append, h, h']

theorem shakes_if_congr {c : Prop} [Decidable c] {C C' D D' : MainScript} (h : shakes C = shakes C')
    (h' : shakes D = shakes D') : shakes (if c then C else D) = shakes (if c then C' else D') := by
  split
  next => exact h
  next => exact h'

theorem shakes_flatMap_congr {f g : Nat → MainScript} (h : ∀ x, shakes (f x) = shakes (g x))
    (l : List Nat) : shakes (l.flatMap f) = shakes (l.flatMap g) := by
  induction l with
  | nil => rfl
  | cons x l ih =>
    rw [List.flatMap_cons, List.flatMap_cons]
    exact shakes_append_congr (h x) ih

theorem shakes_reports (p : MainParameters) : shakes p.reports = 0 := by
  have h : ∀ fields : List ReportField,
      shakes (fields.map fun field => .exchange (.report field)) = 0 := by
    intro fields
    induction fields with
    | nil => rfl
    | cons f fields ih => exact ih
  exact h _

/-- The same side with other choices for the RDMA CM and for the ports of the reports. -/
def MainParameters.choosing (p : MainParameters) (w r : Bool) : MainParameters :=
  { p with workRdmaCm := w, reportPerPort := r }

section Choosing

variable (p : MainParameters) (w r : Bool)

theorem choosing_testMethod : (p.choosing w r).testMethod = p.testMethod := rfl

theorem shakes_choosing_reports : shakes (p.choosing w r).reports = shakes p.reports := by
  rw [shakes_reports, shakes_reports]

theorem shakes_choosing_reportsIf {c : Prop} [Decidable c] :
    shakes (if c then (p.choosing w r).reports else []) = shakes (if c then p.reports else []) :=
  shakes_if_congr (shakes_choosing_reports p w r) rfl

theorem shakes_writeBwRuns : shakes (p.choosing w r).writeBwRuns = shakes p.writeBwRuns := by
  unfold MainParameters.writeBwRuns
  rw [choosing_testMethod]
  cases p.testMethod with
  | runAll =>
    exact shakes_flatMap_congr
      (fun size => shakes_append_congr rfl (shakes_choosing_reportsIf p w r)) _
  | runRegular => exact shakes_append_congr rfl (shakes_choosing_reportsIf p w r)
  | runInfinitely => rfl

theorem shakes_readBwRuns : shakes (p.choosing w r).readBwRuns = shakes p.readBwRuns := by
  unfold MainParameters.readBwRuns
  rw [choosing_testMethod]
  cases p.testMethod with
  | runAll =>
    exact shakes_flatMap_congr
      (fun size => shakes_append_congr rfl (shakes_choosing_reportsIf p w r)) _
  | runRegular => exact shakes_append_congr rfl (shakes_choosing_reportsIf p w r)
  | runInfinitely => rfl

theorem shakes_atomicBwRuns : shakes (p.choosing w r).atomicBwRuns = shakes p.atomicBwRuns := by
  refine shakes_append_congr rfl ?_
  rw [choosing_testMethod]
  cases p.testMethod with
  | runAll => exact shakes_append_congr rfl (shakes_choosing_reportsIf p w r)
  | runRegular => exact shakes_append_congr rfl (shakes_choosing_reportsIf p w r)
  | runInfinitely => rfl

theorem shakes_sendBwLoop (size : Nat) :
    shakes ((p.choosing w r).sendBwLoop size) = shakes (p.sendBwLoop size) :=
  shakes_append_congr rfl (shakes_choosing_reportsIf p w r)

theorem shakes_sendBwSizes (sizes : List Nat) :
    shakes ((p.choosing w r).sendBwSizes sizes) = shakes (p.sendBwSizes sizes) := by
  induction sizes with
  | nil => rfl
  | cons size sizes ih =>
    have hall : shakes ((p.choosing w r).sendBwAll size) = shakes (p.sendBwAll size) :=
      shakes_append_congr (shakes_append_congr rfl (shakes_sendBwLoop p w r size)) rfl
    exact shakes_append_congr hall (shakes_if_congr rfl ih)

theorem shakes_sendBwRuns : shakes (p.choosing w r).sendBwRuns = shakes p.sendBwRuns := by
  unfold MainParameters.sendBwRuns
  rw [choosing_testMethod]
  cases p.testMethod with
  | runAll => exact shakes_sendBwSizes p w r _
  | runRegular => exact shakes_append_congr rfl (shakes_sendBwLoop p w r p.size)
  | runInfinitely => rfl

/-- The two exchanges in front of the events of the RDMA CM. -/
def cmShakes (p : MainParameters) : Nat := if p.workRdmaCm then 2 else 0

theorem shakes_createResources (p : MainParameters) : shakes p.createResources = cmShakes p := by
  unfold MainParameters.createResources cmShakes
  split <;> rfl

theorem shakes_connectSteps (p : MainParameters) : shakes p.connectSteps = 0 := by
  unfold MainParameters.connectSteps
  split <;> rfl

theorem shakes_connectBw (ip : MainScript) :
    shakes ((p.choosing w r).connectBw ip) + cmShakes p =
      shakes (p.connectBw ip) + cmShakes (p.choosing w r) := by
  simp only [MainParameters.connectBw, shakes_append, shakes_createResources, shakes_connectSteps,
    MainParameters.setUpAgain]
  have hn : (p.choosing w r).numOfQps = p.numOfQps := rfl
  have hc : (p.choosing w r).connectionType = p.connectionType := rfl
  rw [hn, hc]
  omega

theorem shakes_connectLat :
    shakes (p.choosing w r).connectLat + cmShakes p =
      shakes p.connectLat + cmShakes (p.choosing w r) := by
  simp only [MainParameters.connectLat, shakes_append, shakes_createResources, shakes_connectSteps,
    MainParameters.setUpAgain]
  have hn : (p.choosing w r).numOfQps = p.numOfQps := rfl
  have hc : (p.choosing w r).connectionType = p.connectionType := rfl
  rw [hn, hc]
  omega

theorem shakes_connectSend :
    shakes (p.choosing w r).connectSend + cmShakes p =
      shakes p.connectSend + cmShakes (p.choosing w r) := by
  simp only [MainParameters.connectSend, shakes_append, shakes_createResources, shakes_connectSteps,
    MainParameters.setUpAgain]
  have hn : (p.choosing w r).numOfQps = p.numOfQps := rfl
  have hc : (p.choosing w r).connectionType = p.connectionType := rfl
  have hl : (p.choosing w r).connectionless = p.connectionless := rfl
  rw [hn, hc, hl]
  omega

/-- A set-up that differs in the exchanges of the RDMA CM alone, in front of what does not differ.
-/
theorem shakes_behind {C C' D D' : MainScript}
    (h : shakes C' + cmShakes p = shakes C + cmShakes (p.choosing w r))
    (hD : shakes D' = shakes D) :
    shakes (C' ++ D') + cmShakes p = shakes (C ++ D) + cmShakes (p.choosing w r) := by
  rw [shakes_append, shakes_append]
  omega

/-- The keys and handshakes behind the set-up do not depend on the two choices. -/
theorem shakes_choosing (prog : MainProgram) :
    shakes (prog.script (p.choosing w r)) + cmShakes p =
      shakes (prog.script p) + cmShakes (p.choosing w r) := by
  have htell : shakes (p.choosing w r).tellServer = shakes p.tellServer :=
    shakes_append_congr rfl (shakes_choosing_reports p w r)
  have hwait : ∀ start stop, shakes ((p.choosing w r).waitForClient start stop) =
      shakes (p.waitForClient start stop) := fun start stop =>
    shakes_append_congr (shakes_append_congr (shakes_append_congr (shakes_append_congr rfl
      (shakes_choosing_reports p w r)) rfl) rfl) rfl
  have hend : ∀ {c : Prop} [Decidable c] {C C' : MainScript}, shakes C' = shakes C →
      shakes (C' ++ (if c then (p.choosing w r).tellServer else []) ++ ctxCloseConnection ++
        [.act .destroyCtx]) = shakes (C ++ (if c then p.tellServer else []) ++ ctxCloseConnection ++
          [.act .destroyCtx]) := fun h =>
    shakes_append_congr
      (shakes_append_congr (shakes_append_congr h (shakes_if_congr htell rfl)) rfl)
      rfl
  cases prog with
  | sendBw =>
    exact shakes_behind p w r (shakes_behind p w r (shakes_behind p w r (shakes_connectSend p w r)
      (shakes_sendBwRuns p w r)) rfl) rfl
  | writeBw =>
    exact shakes_behind p w r (shakes_connectBw p w r _) (shakes_if_congr (hwait _ _)
      (hend (shakes_append_congr (shakes_writeBwRuns p w r) rfl)))
  | readBw =>
    exact shakes_behind p w r (shakes_connectBw p w r _) (shakes_if_congr (hwait _ _)
      (hend (shakes_append_congr (shakes_readBwRuns p w r) rfl)))
  | atomicBw =>
    exact shakes_behind p w r (shakes_connectBw p w r _) (shakes_if_congr (hwait _ _)
      (hend (shakes_atomicBwRuns p w r)))
  | sendLat =>
    exact shakes_behind p w r (shakes_behind p w r (shakes_behind p w r (shakes_behind p w r
      (shakes_connectSend p w r) rfl) rfl) rfl) rfl
  | writeLat =>
    exact shakes_behind p w r (shakes_behind p w r (shakes_behind p w r (shakes_connectLat p w r)
      rfl) rfl) rfl
  | readLat =>
    exact shakes_behind p w r (shakes_behind p w r (shakes_behind p w r (shakes_connectLat p w r)
      rfl) rfl) rfl
  | atomicLat =>
    exact shakes_behind p w r (shakes_behind p w r (shakes_behind p w r (shakes_connectLat p w r)
      rfl) rfl) rfl

end Choosing

section Ports

variable (p : MainParameters) (w : Bool)

theorem rounds_reports_lt :
    rounds (p.choosing w false).reports < rounds (p.choosing w true).reports := by
  have h : ∀ fields : List ReportField,
      rounds (fields.map fun field => .exchange (.report field) : MainScript) = fields.length := by
    intro fields
    induction fields with
    | nil => rfl
    | cons f fields ih => exact congrArg (· + 1) ih
  unfold MainParameters.reports xchgBwReports
  rw [h, h]
  simp [reportFields, MainParameters.choosing]

theorem rounds_reportsIf_le {c : Prop} [Decidable c] :
    rounds (if c then (p.choosing w false).reports else []) ≤
      rounds (if c then (p.choosing w true).reports else []) := by
  split
  next => exact (rounds_reports_lt p w).le
  next => exact Nat.le_refl _

theorem rounds_append_le {C C' D D' : MainScript} (h : rounds C ≤ rounds C')
    (h' : rounds D ≤ rounds D') : rounds (C ++ D) ≤ rounds (C' ++ D') := by
  rw [rounds_append, rounds_append]
  exact Nat.add_le_add h h'

theorem rounds_append_lt {C C' D D' : MainScript} (h : rounds C < rounds C')
    (h' : rounds D ≤ rounds D') : rounds (C ++ D) < rounds (C' ++ D') := by
  rw [rounds_append, rounds_append]
  exact Nat.add_lt_add_of_lt_of_le h h'

theorem rounds_append_lt_right {C C' D D' : MainScript} (h : rounds C ≤ rounds C')
    (h' : rounds D < rounds D') : rounds (C ++ D) < rounds (C' ++ D') := by
  rw [rounds_append, rounds_append]
  exact Nat.add_lt_add_of_le_of_lt h h'

theorem rounds_flatMap_le {f g : Nat → MainScript} (h : ∀ x, rounds (f x) ≤ rounds (g x))
    (l : List Nat) : rounds (l.flatMap f) ≤ rounds (l.flatMap g) := by
  induction l with
  | nil => exact Nat.le_refl _
  | cons x l ih =>
    rw [List.flatMap_cons, List.flatMap_cons]
    exact rounds_append_le (h x) ih

/-- The sizes of a run over all of them are not empty. -/
theorem rounds_sizesBelow_lt {f g : Nat → MainScript} (h : ∀ x, rounds (f x) < rounds (g x)) :
    rounds ((MainParameters.sizesBelow 24).flatMap f) <
      rounds ((MainParameters.sizesBelow 24).flatMap g) := by
  have hl : MainParameters.sizesBelow 24 = 2 :: (List.range' 2 22).map fun i => 1 <<< i := rfl
  rw [hl, List.flatMap_cons, List.flatMap_cons]
  exact rounds_append_lt (h 2) (rounds_flatMap_le (fun x => (h x).le) _)

/-- A run behind the set-up, by the side that waits, the side that tells, or both. -/
theorem rounds_ends_lt {c c' : Prop} [Decidable c] [Decidable c']
    {start stop runs runs' : MainScript}
    (hle : rounds runs ≤ rounds runs') (hlt : ¬ c → ¬ c' → rounds runs < rounds runs') :
    rounds (if c then (p.choosing w false).waitForClient start stop
      else runs ++ (if c' then (p.choosing w false).tellServer else []) ++ ctxCloseConnection ++
        [.act .destroyCtx]) <
    rounds (if c then (p.choosing w true).waitForClient start stop
      else runs' ++ (if c' then (p.choosing w true).tellServer else []) ++ ctxCloseConnection ++
        [.act .destroyCtx]) := by
  have hr := rounds_reports_lt p w
  have htell : rounds (p.choosing w false).tellServer < rounds (p.choosing w true).tellServer :=
    rounds_append_lt_right (Nat.le_refl _) hr
  by_cases hc : c
  · rw [if_pos hc, if_pos hc]
    exact rounds_append_lt (rounds_append_lt (rounds_append_lt (rounds_append_lt_right
      (Nat.le_refl _) hr) (Nat.le_refl _)) (Nat.le_refl _)) (Nat.le_refl _)
  · rw [if_neg hc, if_neg hc]
    refine rounds_append_lt (rounds_append_lt ?_ (Nat.le_refl _)) (Nat.le_refl _)
    by_cases hc' : c'
    · rw [if_pos hc', if_pos hc']
      exact rounds_append_lt_right hle htell
    · rw [if_neg hc', if_neg hc']
      exact rounds_append_lt (hlt hc hc') (Nat.le_refl _)

theorem rounds_writeBwRuns_le :
    rounds (p.choosing w false).writeBwRuns ≤ rounds (p.choosing w true).writeBwRuns := by
  unfold MainParameters.writeBwRuns
  rw [choosing_testMethod, choosing_testMethod]
  cases p.testMethod with
  | runAll =>
    exact rounds_flatMap_le
      (fun size => rounds_append_le (Nat.le_refl _) (rounds_reportsIf_le p w)) _
  | runRegular => exact rounds_append_le (Nat.le_refl _) (rounds_reportsIf_le p w)
  | runInfinitely => exact Nat.le_refl _

theorem rounds_writeBwRuns_lt (hv : p.verb = .write) (hd : p.duplex = true)
    (hm : p.testMethod ≠ .runInfinitely) :
    rounds (p.choosing w false).writeBwRuns < rounds (p.choosing w true).writeBwRuns := by
  have hr : ∀ r, (if (p.choosing w r).duplex && ((p.choosing w r).verb ≠ .writeImm ||
      (p.choosing w r).testType ≠ .duration) then (p.choosing w r).reports else []) =
      (p.choosing w r).reports := fun r => if_pos (by simp [MainParameters.choosing, hv, hd])
  unfold MainParameters.writeBwRuns
  rw [choosing_testMethod, choosing_testMethod]
  cases hmm : p.testMethod with
  | runAll =>
    refine rounds_sizesBelow_lt fun size => rounds_append_lt_right (Nat.le_refl _) ?_
    rw [hr, hr]
    exact rounds_reports_lt p w
  | runRegular =>
    refine rounds_append_lt_right (Nat.le_refl _) ?_
    rw [hr, hr]
    exact rounds_reports_lt p w
  | runInfinitely => exact absurd hmm hm

theorem rounds_readBwRuns_le :
    rounds (p.choosing w false).readBwRuns ≤ rounds (p.choosing w true).readBwRuns := by
  unfold MainParameters.readBwRuns
  rw [choosing_testMethod, choosing_testMethod]
  cases p.testMethod with
  | runAll =>
    exact rounds_flatMap_le
      (fun size => rounds_append_le (Nat.le_refl _) (rounds_reportsIf_le p w)) _
  | runRegular => exact rounds_append_le (Nat.le_refl _) (rounds_reportsIf_le p w)
  | runInfinitely => exact Nat.le_refl _

theorem rounds_readBwRuns_lt (hd : p.duplex = true) (hm : p.testMethod ≠ .runInfinitely) :
    rounds (p.choosing w false).readBwRuns < rounds (p.choosing w true).readBwRuns := by
  have hr : ∀ r, (if (p.choosing w r).duplex then (p.choosing w r).reports else []) =
      (p.choosing w r).reports := fun r => if_pos hd
  unfold MainParameters.readBwRuns
  rw [choosing_testMethod, choosing_testMethod]
  cases hmm : p.testMethod with
  | runAll =>
    refine rounds_sizesBelow_lt fun size => rounds_append_lt_right (Nat.le_refl _) ?_
    rw [hr, hr]
    exact rounds_reports_lt p w
  | runRegular =>
    refine rounds_append_lt_right (Nat.le_refl _) ?_
    rw [hr, hr]
    exact rounds_reports_lt p w
  | runInfinitely => exact absurd hmm hm

theorem rounds_atomicBwRuns_le :
    rounds (p.choosing w false).atomicBwRuns ≤ rounds (p.choosing w true).atomicBwRuns := by
  refine rounds_append_le (Nat.le_refl _) ?_
  rw [choosing_testMethod, choosing_testMethod]
  cases p.testMethod with
  | runAll => exact rounds_append_le (Nat.le_refl _) (rounds_reportsIf_le p w)
  | runRegular => exact rounds_append_le (Nat.le_refl _) (rounds_reportsIf_le p w)
  | runInfinitely => exact Nat.le_refl _

theorem rounds_atomicBwRuns_lt (hd : p.duplex = true) (hm : p.testMethod ≠ .runInfinitely) :
    rounds (p.choosing w false).atomicBwRuns < rounds (p.choosing w true).atomicBwRuns := by
  have hr : ∀ r, (if (p.choosing w r).duplex then (p.choosing w r).reports else []) =
      (p.choosing w r).reports := fun r => if_pos hd
  refine rounds_append_lt_right (Nat.le_refl _) ?_
  rw [choosing_testMethod, choosing_testMethod]
  cases hmm : p.testMethod with
  | runAll =>
    refine rounds_append_lt_right (Nat.le_refl _) ?_
    rw [hr, hr]
    exact rounds_reports_lt p w
  | runRegular =>
    refine rounds_append_lt_right (Nat.le_refl _) ?_
    rw [hr, hr]
    exact rounds_reports_lt p w
  | runInfinitely => exact absurd hmm hm

/-- Reports with ports make a script longer. -/
theorem rounds_script_lt {prog : MainProgram} (hr : prog.reportsPorts p = true)
    (hm : p.machine = .client ∨ p.machine = .server) :
    rounds (prog.script (p.choosing w false)) < rounds (prog.script (p.choosing w true)) := by
  have hrole : p.duplex = false → p.isServer = false → p.isClient = true := by
    intro hd hs
    rcases hm with hm | hm
    · exact decide_eq_true hm
    · simp [MainParameters.isServer, hm] at hs
  cases prog with
  | writeBw =>
    simp only [MainProgram.reportsPorts, Bool.and_eq_true, Bool.or_eq_true, decide_eq_true_eq,
      Bool.not_eq_true'] at hr
    obtain ⟨hv, hr⟩ := hr
    refine rounds_append_lt_right (Nat.le_refl _) (rounds_ends_lt p w
      (rounds_append_le (rounds_writeBwRuns_le p w) (Nat.le_refl _)) fun hc hc' => ?_)
    refine rounds_append_lt ?_ (Nat.le_refl _)
    change ¬ (p.isServer && p.verb = .write && !p.duplex) = true at hc
    change ¬ (p.isClient && p.verb = .write && !p.duplex) = true at hc'
    cases hd : p.duplex with
    | false => simp_all
    | true => exact rounds_writeBwRuns_lt p w hv hd (by simpa [hd] using hr)
  | readBw =>
    simp only [MainProgram.reportsPorts, Bool.or_eq_true, decide_eq_true_eq,
      Bool.not_eq_true'] at hr
    refine rounds_append_lt_right (Nat.le_refl _) (rounds_ends_lt p w
      (rounds_append_le (rounds_readBwRuns_le p w) (Nat.le_refl _)) fun hc hc' => ?_)
    refine rounds_append_lt ?_ (Nat.le_refl _)
    change ¬ (p.isServer && !p.duplex) = true at hc
    change ¬ (p.isClient && !p.duplex) = true at hc'
    cases hd : p.duplex with
    | false => simp_all
    | true => exact rounds_readBwRuns_lt p w hd (by simpa [hd] using hr)
  | atomicBw =>
    simp only [MainProgram.reportsPorts, Bool.or_eq_true, decide_eq_true_eq,
      Bool.not_eq_true'] at hr
    refine rounds_append_lt_right (Nat.le_refl _) (rounds_ends_lt p w
      (rounds_atomicBwRuns_le p w) fun hc hc' => ?_)
    change ¬ (p.isServer && !p.duplex) = true at hc
    change ¬ (p.isClient && !p.duplex) = true at hc'
    cases hd : p.duplex with
    | false => simp_all
    | true => exact rounds_atomicBwRuns_lt p w hd (by simpa [hd] using hr)
  | sendBw | sendLat | writeLat | readLat | atomicLat => cases hr

end Ports

end Counts

namespace MainSides

variable {p q : MainParameters} {prog : MainProgram}

/-- The choices that the negotiation leaves open do not matter for the rest. -/
theorem choosing (h : MainSides prog p q) {w r w' r' : Bool}
    (hr : r = true → p.testType = .duration)
    (hr' : r' = true → p.testType = .duration) :
    MainSides prog (p.choosing w r) (q.choosing w' r') where
  verb := h.verb
  connectionType := h.connectionType
  testMethod := h.testMethod
  testType := h.testType
  size := h.size
  duplex := h.duplex
  numOfQps := h.numOfQps
  dataValidation := h.dataValidation
  currMtu := h.currMtu
  version := h.version
  remVersion := h.remVersion
  connected := h.connected
  watched := h.watched
  settled := ⟨h.settled.verb, h.settled.infinitely, h.settled.latency, h.settled.validation, hr⟩
  settledPeer := ⟨h.settledPeer.verb, h.settledPeer.infinitely, h.settledPeer.latency,
    h.settledPeer.validation, fun hx => h.testType.trans (hr' hx)⟩
  client := h.client
  server := h.server

/-- Both sides have the same exchanges exactly when they make the same choices. -/
theorem exchanges_eq_iff (h : MainSides prog p q) :
    exchanges (prog.script p) = exchanges (prog.script q) ↔ q.workRdmaCm = p.workRdmaCm ∧
      (prog.reportsPorts p = true → q.reportPerPort = p.reportPerPort) := by
  refine ⟨fun he => ?_, fun hc => (h.fits hc.1 hc.2).same⟩
  have hw : q.workRdmaCm = p.workRdmaCm := by
    have hp := shakes_choosing p false false prog
    have hq := shakes_choosing q false false prog
    have hs : shakes (prog.script p) = shakes (prog.script q) := by
      simp only [shakes, he]
    have hc : shakes (prog.script (p.choosing false false)) =
        shakes (prog.script (q.choosing false false)) := by
      have hsides : MainSides prog (p.choosing false false) (q.choosing false false) :=
        h.choosing nofun nofun
      have hf := hsides.fits rfl fun _ => rfl
      simp only [shakes, hf.same]
    have hcm : cmShakes p = cmShakes q := by
      have hz : ∀ t : MainParameters, cmShakes (t.choosing false false) = 0 := fun _ => rfl
      rw [hz] at hp hq
      omega
    unfold cmShakes at hcm
    split at hcm <;> split at hcm <;> simp_all
  refine ⟨hw, fun hr => ?_⟩
  by_contra hne
  have hdur : ∀ b, b = q.reportPerPort → b = true → p.testType = .duration := fun b hb ht =>
    h.testType ▸ h.settledPeer.perPort (hb ▸ ht)
  have hq : exchanges (prog.script (p.choosing p.workRdmaCm q.reportPerPort)) =
      exchanges (prog.script q) := by
    have hs : MainSides prog (p.choosing p.workRdmaCm q.reportPerPort)
        (q.choosing q.workRdmaCm q.reportPerPort) := h.choosing (hdur _ rfl) (hdur _ rfl)
    exact (hs.fits hw fun _ => rfl).same
  have heq : rounds (prog.script (p.choosing p.workRdmaCm p.reportPerPort)) =
      rounds (prog.script (p.choosing p.workRdmaCm q.reportPerPort)) :=
    congrArg List.length (he.trans hq.symm)
  have hlt := rounds_script_lt p p.workRdmaCm hr (.inl h.client)
  cases hpr : p.reportPerPort <;> cases hqr : q.reportPerPort <;> rw [hpr, hqr] at heq
  · exact hne (hqr.trans hpr.symm)
  · omega
  · omega
  · exact hne (hqr.trans hpr.symm)

/-- The two sides stay in step and end together, in every order of their actions, exactly when they
make the same choices; either of them connects to the other. -/
theorem inStep_iff (h : MainSides prog p q) :
    ((∀ s, Reachable (waitsFor p.verb) (prog.script p) (prog.script q) s → InStep s ∧
      ((∃ i t, act (waitsFor p.verb) i s = some t) ∨
        Finished (prog.script p) (prog.script q) s)) ↔
      q.workRdmaCm = p.workRdmaCm ∧
        (prog.reportsPorts p = true → q.reportPerPort = p.reportPerPort)) ∧
    ((∀ s, Reachable (waitsFor p.verb) (prog.script q) (prog.script p) s → InStep s ∧
      ((∃ i t, act (waitsFor p.verb) i s = some t) ∨
        Finished (prog.script q) (prog.script p) s)) ↔
      q.workRdmaCm = p.workRdmaCm ∧
        (prog.reportsPorts p = true → q.reportPerPort = p.reportPerPort)) := by
  have hfed := fun he => h.fits (h.exchanges_eq_iff.mp he).1 (h.exchanges_eq_iff.mp he).2
  constructor
  · rw [Lockstep.inStep_iff fun he => ⟨(hfed he).client, (hfed he).server⟩, h.exchanges_eq_iff]
  · rw [Lockstep.inStep_iff fun he => ⟨(hfed he.symm).server, (hfed he.symm).client⟩,
      ← h.exchanges_eq_iff]
    exact eq_comm

end MainSides

end Perftest
