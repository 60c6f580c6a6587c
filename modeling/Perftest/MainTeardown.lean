import Perftest.MainOrder

namespace Perftest

open Lockstep

/-- The acts that end a side. -/
def MainAct.ends : MainAct → Bool
  | .dataValidationStop | .destroyCtx => true
  | _ => false

def only (a b : MainAct) : List MainAct := if b = a then [b] else []

section Keeps

variable {x : MainParameters} {needs : MainAct → List MainAct}

theorem only_eq_nil {a : MainAct} (ha : a.ends = true) :
    ∀ b : MainAct, ¬ b.ends = true → only a b = [] := by
  intro b hb
  refine if_neg ?_
  rintro rfl
  exact hb ha

theorem not_mem_of_only {a : MainAct} {C : MainScript} (h : Free (only a) C) : .act a ∉ C := by
  intro hm
  have hn := h a hm
  simp [only] at hn

variable (hn : ∀ a : MainAct, ¬ a.ends = true → needs a = [])

@[simp] theorem free_handShake (n : Nat) : Free needs (ctxHandShake n) := by
  simp [ctxHandShake]

@[simp] theorem free_handShakes (n : Nat) : Free needs (ctxHandShakes n) := by
  simp [ctxHandShakes]

@[simp] theorem free_reports : Free needs x.reports := by
  intro a ha
  simp [MainParameters.reports, xchgBwReports] at ha

include hn

theorem keeps_runLoopSteps (l : DataLoop) : Free needs (runLoopSteps l) := by
  simp [runLoopSteps, hn, MainAct.ends]

theorem keeps_validates (r : Bool) {a : MainAct} (h : ¬ a.ends = true) :
    Free needs (x.validates r a) := by
  simp [MainParameters.validates, hn a h]

theorem keeps_connectBw {ip : MainScript} (h : Free needs ip) : Free needs (x.connectBw ip) := by
  simp [MainParameters.connectBw, MainParameters.createResources, MainParameters.connectSteps,
    MainParameters.setUpAgain, h, hn, MainAct.ends]

theorem keeps_connectLat : Free needs x.connectLat := by
  simp [MainParameters.connectLat, MainParameters.createResources, MainParameters.connectSteps,
    MainParameters.setUpAgain, hn, MainAct.ends]

theorem keeps_connectSend : Free needs x.connectSend := by
  simp [MainParameters.connectSend, MainParameters.createResources, MainParameters.connectSteps,
    MainParameters.setUpAgain, hn, MainAct.ends]

theorem keeps_writeBwLoop (size : Nat) : Free needs (x.writeBwLoop size) := by
  simp [MainParameters.writeBwLoop, keeps_runLoopSteps hn]

theorem keeps_writeBwRuns : Free needs x.writeBwRuns := by
  have hl := keeps_writeBwLoop (x := x) hn
  cases hm : x.testMethod <;>
    simp [MainParameters.writeBwRuns, hm, MainParameters.writeBwAll, MainParameters.writeBwRegular,
      MainParameters.writeBwInfinitely, MainParameters.ctxSetSendWqesSteps,
      MainParameters.warmUpSteps, hl, keeps_runLoopSteps hn, hn, MainAct.ends]

theorem keeps_readBwRuns : Free needs x.readBwRuns := by
  have hs : ∀ r, Free needs (x.validates r .dataValidationStart) := fun r =>
    keeps_validates hn r (by decide)
  cases hm : x.testMethod <;>
    simp [MainParameters.readBwRuns, hm, MainParameters.readBwAll, MainParameters.readBwRegular,
      MainParameters.readBwLoop, MainParameters.warmUpSteps, hs, keeps_runLoopSteps hn, hn,
      MainAct.ends]

theorem keeps_atomicBwRuns : Free needs x.atomicBwRuns := by
  cases hm : x.testMethod <;>
    simp [MainParameters.atomicBwRuns, hm, MainParameters.warmUpSteps, keeps_runLoopSteps hn, hn,
      MainAct.ends]

theorem keeps_sendBwLoop (size : Nat) : Free needs (x.sendBwLoop size) := by
  simp [MainParameters.sendBwLoop, keeps_runLoopSteps hn]

theorem keeps_sendBwWqes (size : Nat) : Free needs (x.sendBwWqes size) := by
  simp [MainParameters.sendBwWqes, MainParameters.ctxSetSendWqesSteps, hn, MainAct.ends]

theorem keeps_sendBwSizes (sizes : List Nat) : Free needs (x.sendBwSizes sizes) := by
  induction sizes with
  | nil => exact free_nil
  | cons size sizes ih =>
    simp [MainParameters.sendBwSizes, MainParameters.sendBwAll, keeps_sendBwWqes hn,
      keeps_sendBwLoop hn, ih]

theorem keeps_sendBwRuns : Free needs x.sendBwRuns := by
  have hs := keeps_sendBwSizes (x := x) hn
  cases hm : x.testMethod <;>
    simp [MainParameters.sendBwRuns, hm, hs, keeps_sendBwWqes hn, keeps_sendBwLoop hn,
      MainParameters.sendBwInfinitely, keeps_runLoopSteps hn, hn, MainAct.ends]

theorem keeps_sendLatRuns : Free needs x.sendLatRuns := by
  simp [MainParameters.sendLatRuns, MainParameters.sendLatRun, keeps_runLoopSteps hn, hn,
    MainAct.ends]

theorem keeps_writeLatRuns : Free needs x.writeLatRuns := by
  simp [MainParameters.writeLatRuns, MainParameters.writeLatRun, keeps_runLoopSteps hn, hn,
    MainAct.ends]

theorem keeps_readLatRuns : Free needs x.readLatRuns := by
  simp [MainParameters.readLatRuns, keeps_runLoopSteps hn]

end Keeps

section Closing

variable {prog : MainProgram} {x y : MainParameters}

/-- A script that ends with an exchange, behind which nothing but its end is left. -/
structure Closes (C body tail : MainScript) : Prop where
  split : C = body ++ .exchange (.keys 0) :: tail
  keeps : Free (only .destroyCtx) body
  silent : rounds tail = 0
  ends : ∀ b, .act b ∈ tail → b.ends = true

theorem closes_close {C body : MainScript}
    (h : C = body ++ ctxCloseConnection ++ [.act .destroyCtx])
    (hb : Free (only .destroyCtx) body) : Closes C body [.act .destroyCtx] := by
  refine ⟨by simp [h, ctxCloseConnection, ctxHandShake], hb, rfl, ?_⟩
  simp [MainAct.ends]

theorem closes_waitForClient {body start stop : MainScript} (hb : Free (only .destroyCtx) body)
    (hs : Free (only .destroyCtx) start) (hr : rounds stop = 0)
    (ht : ∀ b, .act b ∈ stop → b.ends = true) :
    Closes (body ++ x.waitForClient start stop) (body ++ start ++ ctxHandShake 0 ++ x.reports)
      (stop ++ [.act .destroyCtx]) := by
  refine ⟨by simp [MainParameters.waitForClient, ctxCloseConnection, ctxHandShake], ?_, ?_, ?_⟩
  · simp [hb, hs]
  · simp [hr]
  · intro b hm
    rcases List.mem_append.mp hm with hm | hm
    · exact ht b hm
    · simp at hm
      rw [hm]
      rfl

theorem validates_ends (r : Bool) : rounds (x.validates r .dataValidationStop) = 0 ∧
    ∀ b, .act b ∈ x.validates r .dataValidationStop → b.ends = true := by
  unfold MainParameters.validates
  split
  next =>
    refine ⟨rfl, ?_⟩
    simp [MainAct.ends]
  next => exact ⟨rfl, fun b hb => absurd hb List.not_mem_nil⟩

/-- Every test but `write_lat` ends so. -/
theorem closes_script (hl : prog ≠ .writeLat) (p : MainParameters) :
    ∃ body tail, Closes (prog.script p) body tail := by
  have hn := only_eq_nil (a := .destroyCtx) rfl
  have hs : ∀ size, only .destroyCtx (.ctxSetSendWqes size) = [] := fun size => rfl
  have hinit : ∀ r, Free (only .destroyCtx)
      (p.connectBw (p.validates r .dataValidationInit)) := fun r =>
    keeps_connectBw hn (keeps_validates hn r (by decide))
  have hstop : ∀ r, Free (only .destroyCtx) (p.validates r .dataValidationStop) := by
    intro r
    simp [MainParameters.validates, only]
  cases prog with
  | writeLat => exact absurd rfl hl
  | sendBw =>
    refine ⟨p.connectSend ++ p.sendBwRuns, _, closes_close rfl ?_⟩
    exact free_append.mpr ⟨keeps_connectSend hn, keeps_sendBwRuns hn⟩
  | sendLat =>
    refine ⟨p.connectSend ++ [.act (.ctxSetSendWqes p.size)] ++ p.sendLatRuns, _,
      closes_close rfl ?_⟩
    simp [keeps_connectSend hn, keeps_sendLatRuns hn, hs]
  | readLat =>
    refine ⟨p.connectLat ++ if p.isServer then []
      else [.act (.ctxSetSendWqes p.size)] ++ p.readLatRuns, _, closes_close rfl ?_⟩
    simp [keeps_connectLat hn, keeps_readLatRuns hn, hs]
  | atomicLat =>
    refine ⟨p.connectLat ++ if p.isServer then []
      else [.act (.ctxSetSendWqes p.size)] ++ runLoopSteps (.runIterLat p.size), _,
      closes_close rfl ?_⟩
    simp [keeps_connectLat hn, keeps_runLoopSteps hn, hs]
  | writeBw =>
    by_cases hc : (p.isServer && p.verb = .write && !p.duplex) = true
    · have he : MainProgram.writeBw.script p =
          p.connectBw (p.validates (p.isServer || p.duplex) .dataValidationInit) ++
            p.waitForClient (p.validates true .dataValidationStart)
              (p.validates true .dataValidationStop) := congrArg _ (if_pos hc)
      rw [he]
      exact ⟨_, _, closes_waitForClient (hinit _) (keeps_validates hn _ (by decide))
        (validates_ends _).1 (validates_ends _).2⟩
    · refine ⟨p.connectBw (p.validates (p.isServer || p.duplex) .dataValidationInit) ++
        (p.writeBwRuns ++ p.validates p.duplex .dataValidationStop ++
          if p.isClient && p.verb = .write && !p.duplex then p.tellServer else []), _,
        closes_close ?_ ?_⟩
      · simp [MainProgram.script, MainParameters.writeBw, hc]
      · simp [hinit, keeps_writeBwRuns hn, hstop, MainParameters.tellServer]
  | readBw =>
    by_cases hc : (p.isServer && !p.duplex) = true
    · have he : MainProgram.readBw.script p =
          p.connectBw (p.validates (p.isClient || p.duplex) .dataValidationInit) ++
            p.waitForClient [] [] := congrArg _ (if_pos hc)
      rw [he]
      exact ⟨_, _, closes_waitForClient (hinit _) free_nil rfl fun b hb =>
        absurd hb List.not_mem_nil⟩
    · refine ⟨p.connectBw (p.validates (p.isClient || p.duplex) .dataValidationInit) ++
        (p.readBwRuns ++ p.validates (p.isClient || p.duplex) .dataValidationStop ++
          if p.isClient && !p.duplex then p.tellServer else []), _, closes_close ?_ ?_⟩
      · simp [MainProgram.script, MainParameters.readBw, hc]
      · simp [hinit, keeps_readBwRuns hn, hstop, MainParameters.tellServer]
  | atomicBw =>
    have hconn : Free (only .destroyCtx) (p.connectBw []) := keeps_connectBw hn free_nil
    by_cases hc : (p.isServer && !p.duplex) = true
    · have he : MainProgram.atomicBw.script p = p.connectBw [] ++ p.waitForClient [] [] :=
        congrArg _ (if_pos hc)
      rw [he]
      exact ⟨_, _, closes_waitForClient hconn free_nil rfl fun b hb =>
        absurd hb List.not_mem_nil⟩
    · refine ⟨p.connectBw [] ++ (p.atomicBwRuns ++
        if p.isClient && !p.duplex then p.tellServer else []), _, closes_close ?_ ?_⟩
      · simp [MainProgram.script, MainParameters.atomicBw, hc]
      · simp [hconn, keeps_atomicBwRuns hn, MainParameters.tellServer]

/-- Behind the exchange in front of its end, a side has a peer that is at its end. -/
theorem MainPair.destroys (h : MainPair prog x y) (hl : prog ≠ .writeLat)
    {needs : MainAct → List MainAct}
    {s : State MainAct MainMessage} :
    (Reachable needs (prog.script x) (prog.script y) s → .act .destroyCtx ∈ s.client.done →
      ∀ b, .act b ∈ s.server.todo → b.ends = true) ∧
    (Reachable needs (prog.script y) (prog.script x) s → .act .destroyCtx ∈ s.server.done →
      ∀ b, .act b ∈ s.client.todo → b.ends = true) := by
  obtain ⟨cx, tx, hx⟩ := closes_script hl x
  obtain ⟨cy, ty, hy⟩ := closes_script hl y
  have hr : rounds (cx ++ [.exchange (.keys 0)]) = rounds cy + 1 := by
    have he := h.rounds_eq (f := prog.script) fun p q hs hw hr _ => hs.fits hw hr
    rw [hx.split, hy.split] at he
    simp only [rounds_append, rounds_exchange, rounds_nil, hx.silent, hy.silent] at he ⊢
    omega
  have hn : Step.act .destroyCtx ∉ cx ++ [Step.exchange (MainMessage.keys 0)] := by
    intro hm
    rcases List.mem_append.mp hm with hm | hm
    · exact absurd (hx.keeps _ hm) (List.cons_ne_nil _ _)
    · simp at hm
  have hsplit : prog.script x = (cx ++ [.exchange (.keys 0)]) ++ tx := by
    rw [hx.split]
    simp
  exact ⟨fun hs ha b hb => hy.ends b (hs.server_behind hsplit hy.split hr ha hn b hb),
    fun hs ha b hb => hy.ends b (hs.client_behind hy.split hsplit hr ha hn b hb)⟩

theorem MainPair.rounds_script (h : MainPair prog x y) :
    rounds (prog.script x) = rounds (prog.script y) :=
  h.rounds_eq (f := prog.script) fun _ _ hs hw hr _ => hs.fits hw hr

/-- A side stops its validators, if any, behind an exchange with all loops of its peer in front. -/
def StopsBehind (C S : MainScript) : Prop :=
  .act .dataValidationStop ∉ C ∨ (∀ l, .act (.leave l) ∉ S) ∨
    ∃ C₁ C₂ S₁ S₂ m, C = C₁ ++ C₂ ∧ S = S₁ ++ .exchange m :: S₂ ∧ rounds C₁ = rounds S₁ + 1 ∧
      .act .dataValidationStop ∉ C₁ ∧ ∀ l, .act (.leave l) ∉ S₂

theorem StopsBehind.of_split {C S C₁ C₂ S₁ S₂ : MainScript} {m m' : MainMessage}
    (hC : C = C₁ ++ .exchange m :: C₂) (hS : S = S₁ ++ .exchange m' :: S₂)
    (hr : rounds C₁ = rounds S₁) (hn : Free (only .dataValidationStop) C₁)
    (hl : ∀ l, .act (.leave l) ∉ S₂) : StopsBehind C S := by
  refine .inr (.inr ⟨C₁ ++ [.exchange m], C₂, S₁, S₂, m', by simp [hC], hS, ?_, ?_, hl⟩)
  · simp [hr]
  · exact not_mem_of_only (free_append.mpr ⟨hn, by simp⟩)

theorem MainPair.rounds_reports (h : MainPair prog x y) (hr : prog.reportsPorts x = true) :
    rounds x.reports = rounds y.reports := by
  have he : y.reports = x.reports := by
    simp only [MainParameters.reports, xchgBwReports, reportFields, h.ports hr,
      h.same.remVersion.1, h.same.remVersion.2, if_true]
  rw [he]

/-- The set-up and the loop of a validated run in both directions, up to the exchange behind it. -/
def MainParameters.writeBwFront (p : MainParameters) : MainScript :=
  p.connectBw (p.validates (p.isServer || p.duplex) .dataValidationInit) ++
    (p.ctxSetSendWqesSteps p.size ++ p.warmUpSteps p.size ++ [.act .dataValidationStart] ++
      ctxHandShake 0 ++ p.writeBwLoop p.size)

theorem writeBw_validated (hv : x.verb = .write) (hd : x.dataValidation = true)
    (hdx : x.duplex = true) (hm : x.testMethod = .runRegular) :
    x.writeBw = x.writeBwFront ++ .exchange (.keys 0) ::
      (x.reports ++ [.act .dataValidationStop] ++ ctxCloseConnection ++ [.act .destroyCtx]) := by
  simp [MainParameters.writeBw, MainParameters.writeBwFront, MainParameters.writeBwRuns,
    MainParameters.writeBwRegular, MainParameters.validates, hv, hd, hdx, hm, ctxHandShake]

theorem MainPair.stopsBehind_writeBw (h : MainPair .writeBw x y) :
    StopsBehind x.writeBw y.writeBw := by
  have hn := only_eq_nil (a := .dataValidationStop) rfl
  have hend : only .dataValidationStop .destroyCtx = [] := rfl
  have hinit : ∀ r, Free (only .dataValidationStop)
      (x.connectBw (x.validates r .dataValidationInit)) := fun r =>
    keeps_connectBw hn (keeps_validates hn r (by decide))
  have hstart : ∀ r, Free (only .dataValidationStop) (x.validates r .dataValidationStart) :=
    fun r => keeps_validates hn r (by decide)
  have htotal := h.rounds_script
  cases hd : x.dataValidation with
  | false =>
    refine .inl (not_mem_of_only ?_)
    have hoff : ∀ r, x.validates r .dataValidationStop = [] := by
      intro r
      simp [MainParameters.validates, hd]
    simp [MainParameters.writeBw, MainParameters.waitForClient, MainParameters.tellServer,
      ctxCloseConnection, hinit, hstart, keeps_writeBwRuns hn, hoff, hend]
  | true =>
    have hval := h.settled.validation hd
    have hv : x.verb = .write := by
      rcases h.writeBw_verb with hv | hv
      · exact hv
      · rw [hv] at hval
        simp at hval
    have hvy : y.verb = .write := h.same.verb.trans hv
    cases hdx : x.duplex with
    | false =>
      rcases h.sides with hs | hs
      · refine .inl (not_mem_of_only ?_)
        have hoff : x.validates false .dataValidationStop = [] := by
          simp [MainParameters.validates]
        have hx : x.isServer = false := by simp [MainParameters.isServer, hs.client]
        simp [MainParameters.writeBw, MainParameters.tellServer, ctxCloseConnection, hdx, hx, hoff,
          hinit, keeps_writeBwRuns hn, hend]
      · have hs' : x.isServer = true ∧ y.isServer = false ∧ y.isClient = true := by
          simp [MainParameters.isServer, MainParameters.isClient, hs.client, hs.server]
        have hdy : y.duplex = false := h.same.duplex.trans hdx
        have hx : x.writeBw = (x.connectBw (x.validates (x.isServer || x.duplex)
            .dataValidationInit) ++ x.validates true .dataValidationStart ++ ctxHandShake 0 ++
              x.reports) ++ .exchange (.keys 0) ::
                (x.validates true .dataValidationStop ++ [.act .destroyCtx]) := by
          simp [MainParameters.writeBw, MainParameters.waitForClient, hs', hv, hdx,
            ctxCloseConnection, ctxHandShake]
        have hy : y.writeBw = (y.connectBw (y.validates (y.isServer || y.duplex)
            .dataValidationInit) ++ (y.writeBwRuns ++ y.validates y.duplex .dataValidationStop ++
              y.tellServer)) ++ .exchange (.keys 0) :: [.act .destroyCtx] := by
          simp [MainParameters.writeBw, hs', hvy, hdy, ctxCloseConnection, ctxHandShake]
        refine StopsBehind.of_split hx hy ?_ ?_ ?_
        · simp only [MainProgram.script, hx, hy, rounds_append, rounds_exchange, rounds_act,
            rounds_nil, (validates_ends _).1] at htotal ⊢
          omega
        · simp [hinit, hstart]
        · simp
    | true =>
      have hm := hval.1
      have hx := writeBw_validated hv hd hdx hm
      have hy := writeBw_validated hvy (h.same.dataValidation.trans hd) (h.same.duplex.trans hdx)
        (h.same.testMethod.trans hm)
      have hrep := h.rounds_reports (by simp [MainProgram.reportsPorts, hv, hm])
      refine StopsBehind.of_split hx hy ?_ ?_ fun l hl => ?_
      · simp only [MainProgram.script, hx, hy, rounds_append, rounds_exchange, hrep] at htotal
        omega
      · simp [MainParameters.writeBwFront, hinit, MainParameters.ctxSetSendWqesSteps,
          MainParameters.warmUpSteps, keeps_writeBwLoop hn, only]
      · simp [MainParameters.reports, xchgBwReports, ctxCloseConnection, ctxHandShake] at hl

theorem loopless_connectBw {r : Bool} {a : MainAct} {l : DataLoop} (ha : ∀ l, a ≠ .leave l) :
    .act (.leave l) ∉ y.connectBw (y.validates r a) := by
  have hn : ∀ b, (∀ l, b ≠ .leave l) → only (.leave l) b = [] := fun b hb => if_neg (hb l)
  refine not_mem_of_only ?_
  simp [MainParameters.connectBw, MainParameters.createResources, MainParameters.connectSteps,
    MainParameters.setUpAgain, MainParameters.validates, hn, ha]

/-- The set-up and the loop of a validated run in both directions, up to the exchange behind it. -/
def MainParameters.readBwFront (p : MainParameters) : MainScript :=
  p.connectBw (p.validates (p.isClient || p.duplex) .dataValidationInit) ++
    ([.act (.ctxSetSendWqes p.size)] ++ p.warmUpSteps p.size ++ [.act .dataValidationStart] ++
      ctxHandShake 0 ++ p.readBwLoop p.size)

theorem readBw_validated (hd : x.dataValidation = true) (hdx : x.duplex = true)
    (hm : x.testMethod = .runRegular) :
    x.readBw = x.readBwFront ++ .exchange (.keys 0) ::
      (x.reports ++ [.act .dataValidationStop] ++ ctxCloseConnection ++ [.act .destroyCtx]) := by
  simp [MainParameters.readBw, MainParameters.readBwFront, MainParameters.readBwRuns,
    MainParameters.readBwRegular, MainParameters.validates, hd, hdx, hm, ctxHandShake]

theorem MainPair.stopsBehind_readBw (h : MainPair .readBw x y) : StopsBehind x.readBw y.readBw := by
  have hn := only_eq_nil (a := .dataValidationStop) rfl
  have hend : only .dataValidationStop .destroyCtx = [] := rfl
  have hinit : ∀ r, Free (only .dataValidationStop)
      (x.connectBw (x.validates r .dataValidationInit)) := fun r =>
    keeps_connectBw hn (keeps_validates hn r (by decide))
  have htotal := h.rounds_script
  cases hd : x.dataValidation with
  | false =>
    refine .inl (not_mem_of_only ?_)
    have hoff : ∀ r, x.validates r .dataValidationStop = [] := by
      intro r
      simp [MainParameters.validates, hd]
    simp [MainParameters.readBw, MainParameters.waitForClient, MainParameters.tellServer,
      ctxCloseConnection, hinit, keeps_readBwRuns hn, hoff, hend]
  | true =>
    cases hdx : x.duplex with
    | false =>
      have hdy : y.duplex = false := h.same.duplex.trans hdx
      rcases h.sides with hs | hs
      · refine .inr (.inl fun l => ?_)
        have hy : y.isServer = true := decide_eq_true hs.server
        have hc : .act (.leave l) ∉ y.connectBw (y.validates y.isClient .dataValidationInit) :=
          loopless_connectBw fun l hl => by cases hl
        simp [MainParameters.readBw, MainParameters.waitForClient, hy, hdy, hc, ctxCloseConnection,
          ctxHandShake, MainParameters.reports, xchgBwReports]
      · refine .inl (not_mem_of_only ?_)
        have hx : x.isServer = true := decide_eq_true hs.server
        simp [MainParameters.readBw, MainParameters.waitForClient, ctxCloseConnection, hdx, hx,
          hinit, hend]
    | true =>
      have hm := (h.settled.validation hd).1
      have hx := readBw_validated hd hdx hm
      have hy := readBw_validated (h.same.dataValidation.trans hd) (h.same.duplex.trans hdx)
        (h.same.testMethod.trans hm)
      have hrep := h.rounds_reports (by simp [MainProgram.reportsPorts, hm])
      refine StopsBehind.of_split hx hy ?_ ?_ fun l hl => ?_
      · simp only [MainProgram.script, hx, hy, rounds_append, rounds_exchange, hrep] at htotal
        omega
      · have hloop : ∀ l, Free (only .dataValidationStop) (runLoopSteps l) := keeps_runLoopSteps hn
        simp [MainParameters.readBwFront, hinit, MainParameters.warmUpSteps,
          MainParameters.readBwLoop, hloop, only]
      · simp [MainParameters.reports, xchgBwReports, ctxCloseConnection, ctxHandShake] at hl

theorem MainPair.stopsBehind (h : MainPair prog x y) :
    StopsBehind (prog.script x) (prog.script y) := by
  have hn := only_eq_nil (a := .dataValidationStop) rfl
  have hend : only .dataValidationStop .destroyCtx = [] := rfl
  have hset : ∀ size, only .dataValidationStop (.ctxSetSendWqes size) = [] := fun _ => rfl
  cases prog with
  | writeBw => exact h.stopsBehind_writeBw
  | readBw => exact h.stopsBehind_readBw
  | sendBw =>
    refine .inl (not_mem_of_only ?_)
    simp [MainProgram.script, MainParameters.sendBw, ctxCloseConnection, keeps_connectSend hn,
      keeps_sendBwRuns hn, hend]
  | atomicBw =>
    refine .inl (not_mem_of_only ?_)
    simp [MainProgram.script, MainParameters.atomicBw, ctxCloseConnection,
      MainParameters.waitForClient, MainParameters.tellServer, keeps_connectBw hn free_nil,
      keeps_atomicBwRuns hn, hend]
  | sendLat =>
    refine .inl (not_mem_of_only ?_)
    simp [MainProgram.script, MainParameters.sendLat, ctxCloseConnection, keeps_connectSend hn,
      keeps_sendLatRuns hn, hset, hend]
  | writeLat =>
    refine .inl (not_mem_of_only ?_)
    simp [MainProgram.script, MainParameters.writeLat, keeps_connectLat hn, keeps_writeLatRuns hn,
      hset, hend]
  | readLat =>
    refine .inl (not_mem_of_only ?_)
    simp [MainProgram.script, MainParameters.readLat, ctxCloseConnection, keeps_connectLat hn,
      keeps_readLatRuns hn, hset, hend]
  | atomicLat =>
    refine .inl (not_mem_of_only ?_)
    simp [MainProgram.script, MainParameters.atomicLat, ctxCloseConnection, keeps_connectLat hn,
      keeps_runLoopSteps hn, hset, hend]

theorem MainPair.stops (h : MainPair prog x y) {needs : MainAct → List MainAct}
    {s : State MainAct MainMessage} :
    (Reachable needs (prog.script x) (prog.script y) s →
      .act .dataValidationStop ∈ s.client.done → ∀ l, .act (.leave l) ∉ s.server.todo) ∧
    (Reachable needs (prog.script y) (prog.script x) s →
      .act .dataValidationStop ∈ s.server.done → ∀ l, .act (.leave l) ∉ s.client.todo) := by
  rcases h.stopsBehind with hx | hy | ⟨C₁, C₂, S₁, S₂, m, hC, hS, hr, hn, hl⟩
  · refine ⟨fun hs ha => absurd ?_ hx, fun hs ha => absurd ?_ hx⟩
    · rw [← (Inv.of_reachable hs).client.split]
      exact List.mem_append_left _ ha
    · rw [← (Inv.of_reachable hs).server.split]
      exact List.mem_append_left _ ha
  · refine ⟨fun hs _ l hm => hy l ?_, fun hs _ l hm => hy l ?_⟩
    · rw [← (Inv.of_reachable hs).server.split]
      exact List.mem_append_right _ hm
    · rw [← (Inv.of_reachable hs).client.split]
      exact List.mem_append_right _ hm
  · exact ⟨fun hs ha l hm => hl l (hs.server_behind hC hS hr ha hn _ hm),
      fun hs ha l hm => hl l (hs.client_behind hS hC hr ha hn _ hm)⟩

end Closing

/-- What a side knows of its peer, which is at `todo`, from what it has `done` itself: a peer of a
side that stopped its validators is in no loop any more, and a peer of a side that destroyed its
resources is at its end, where nothing waits for a message of the connection. -/
structure LeavesPeer (prog : MainProgram) (done todo : MainScript) : Prop where
  stopped : .act .dataValidationStop ∈ done → ∀ l, .act (.leave l) ∉ todo
  destroyed : prog ≠ .writeLat → .act .destroyCtx ∈ done → ∀ b, .act b ∈ todo → b.ends = true

end Perftest
