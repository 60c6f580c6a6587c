import Perftest.SendAccounting
import Perftest.SendParameters
import Perftest.ValidatedRuns

namespace Perftest

open WorkQueue SendConfig Checked

/-- `attr.cap.max_send_wr` in `ctx_qp_create`, for a QP that sends. -/
def CoreParameters.maxSendWr (c : CoreParameters) : Nat :=
  if c.dataValidation then c.txDepth * 3 else c.txDepth

/-- Of two neighbouring requests one is a data request. -/
def DataBeside (r r' : SendReq) : Prop := r.isData = true ∨ r'.isData = true

/-- A list of this kind is at most half fetch-and-adds, but for one in front. -/
theorem length_le_of_dataBeside {l : List SendReq} (h : l.IsChain DataBeside) :
    l.length ≤ 2 * l.countP SendReq.isData + 1 ∧
      ((∀ r ∈ l.head?, r.isData = true) → l.length ≤ 2 * l.countP SendReq.isData) := by
  induction h with
  | nil => exact ⟨Nat.zero_le _, fun _ => Nat.zero_le _⟩
  | singleton r =>
    refine ⟨Nat.le_add_left _ _, fun hr => ?_⟩
    have hd : r.isData = true := hr r rfl
    rw [List.countP_cons, if_pos hd]
    simp
  | @cons_cons r r' l hr h ih =>
    rw [List.length_cons, List.countP_cons]
    obtain ⟨hle, hhead⟩ := ih
    by_cases hd : r.isData = true
    · rw [if_pos hd]
      exact ⟨by omega, fun _ => by omega⟩
    · have hd' : r'.isData = true := Or.resolve_left hr hd
      have := hhead fun x hx => by
        cases hx
        exact hd'
      rw [if_neg hd]
      exact ⟨by omega, fun hx => absurd (hx r rfl) hd⟩

namespace SendLoop

variable {L : SendLoop} {s : SendCounters} {q : Nat}

theorem dataBeside_append_one {l : List SendReq} (h : l.IsChain DataBeside) (b c : Bool) :
    (l ++ SendReq.data b :: if c then [.fetchAdd] else []).IsChain DataBeside := by
  refine List.isChain_append.mpr ⟨h, ?_, ?_⟩
  · cases c <;> simp [DataBeside, SendReq.isData]
  · intro r _ r' hr'
    simp only [List.head?_cons, Option.mem_some_iff] at hr'
    subst hr'
    exact Or.inr rfl

theorem dataBeside_append_batch {l : List SendReq} (h : l.IsChain DataBeside)
    (flags : Nat → Bool) (k : Nat) : (l ++ L.batch flags k).IsChain DataBeside := by
  unfold batch
  induction L.postList with
  | zero => simpa using h
  | succ n ih =>
    rw [List.range_succ, List.flatMap_append, ← List.append_assoc, List.flatMap_singleton]
    apply dataBeside_append_one
    exact ih

/-- What the batches of a loop establish of a send queue holds of it throughout. -/
theorem posted_of_batches {P : List SendReq → Prop} (h0 : P [])
    (hb : ∀ l flags k, P l → P (l ++ L.batch flags k)) {s : SendState} (hr : L.Reachable s)
    (q : Nat) : P (s.dev.posted q) := by
  refine Transition.Reachable.invariant (P := fun s : SendState => ∀ q, P (s.dev.posted q))
    (fun s hi q => ?_) (fun s t h ht q => ?_) hr q
  · rw [hi.1]
    exact h0
  · obtain ⟨a, ha⟩ := ht
    rcases act_cases ha with ⟨he, -⟩ | ⟨q', -, -, -, -, rfl⟩ | ⟨q', rfl⟩ | ⟨q', rest, -, -, rfl⟩ |
      ⟨q', r, -, rfl⟩
    · rw [he]
      exact h q
    · by_cases hq : q = q'
      · subst hq
        simpa [postSend, Device.post] using hb _ _ _ (h q)
      · simpa [postSend, Device.post, hq] using h q
    · exact h q
    · exact h q
    · exact h q

end SendLoop

theorem isData_of_sendCqe (r : SendReq) (hr : (sendCqe r).isSome = true) : r.isData = true := by
  cases r with
  | data b => rfl
  | fetchAdd => cases hr

theorem isSome_sendCqe_data (b : Bool) : (sendCqe (.data b)).isSome = b := by
  cases b <;> rfl

/-- The data requests that are not known complete fit the window. -/
theorem SendInv.outstanding_le {L : SendLoop} {s : SendCounters} (hs : L.Sound) (h : SendInv L s)
    (q : Nat) : (s.dev.outstanding sendCqe q).countP SendReq.isData ≤ L.txDepth := by
  obtain ⟨m, hm, hc⟩ := h.fifo.outstanding_labelled isData_of_sendCqe (h.posted q)
  have hwithin : L.Within m := fun ht => le_trans (by omega) (h.within q ht)
  simp only [isSome_sendCqe_data] at hc
  rw [countP_signaledAt hs hwithin] at hc
  have hacc := accounted_le (le_of_eq hc.symm)
  rw [← h.ccnt q] at hacc
  have := h.window q
  omega

theorem runIterBw_batch_isData (c : SendConfig) (flags : Nat → Bool) (k : Nat) :
    ∀ r ∈ (runIterBw c).batch flags k, r.isData = true := by
  intro r hr
  obtain ⟨j, -, hj⟩ := List.mem_flatMap.mp hr
  rw [List.mem_singleton.mp hj]
  rfl

/-- Without chained requests the window bounds the whole send queue. -/
theorem runIterBw_outstanding_le {c : SendConfig} {s : SendState} (hs : c.Sound)
    (htx : c.testType = .iterations → c.txDepth ≤ c.iters) (hr : (runIterBw c).Reachable s)
    (q : Nat) : (s.dev.outstanding sendCqe q).length ≤ c.txDepth := by
  have hdata : ∀ r ∈ s.dev.posted q, r.isData = true := by
    refine SendLoop.posted_of_batches (P := fun l => ∀ r ∈ l, r.isData = true)
      (fun r hr => by cases hr) (fun l flags k hl r hr => ?_) hr q
    rcases List.mem_append.mp hr with hr | hr
    · exact hl r hr
    · exact runIterBw_batch_isData c flags k r hr
  have hle := (SendInv.of_reachable hs (FlagsOk.init hs htx) hr).outstanding_le hs q
  rwa [Device.outstanding, List.countP_eq_length.mpr fun r hr => hdata r (List.mem_of_mem_drop hr)] at hle

/-- The send queue of `run_iter_bw_dv` holds every request that is not known complete. -/
theorem runIterBwDv_outstanding_le {b : Build} {prog : Program} {other : OtherParameters}
    {servername : Bool} {args : List Opt} {d : PerftestParameters}
    (h : parser b prog other servername args = .ok d) (hv : d.dataValidation = true)
    (hp : d.postList = 1) (g : DvConfig) (s : SendState)
    (hr : (runIterBwDv d.sendConfig g).Reachable s) (q : Nat) :
    (s.dev.outstanding sendCqe q).length ≤ d.maxSendWr := by
  obtain ⟨c, hc, hd⟩ := parser_inRange h
  rw [hd] at hp hr
  have hs := CoreParameters.sendConfig_sound hc hp
  have hone : c.coreDependecies.sendConfig.postList = 1 := by
    simp only [CoreParameters.sendConfig, hp, Int.toNat_one]
  have hinv := SendInv.of_reachable hs (runIterBwDv_flags hs hone g) hr
  have hdata : (s.dev.outstanding sendCqe q).countP SendReq.isData ≤ c.coreDependecies.txDepth :=
    hinv.outstanding_le hs q
  have hchain := SendLoop.posted_of_batches List.IsChain.nil
    (fun l flags k hl => SendLoop.dataBeside_append_batch hl flags k) hr q
  have hlen := (length_le_of_dataBeside
    (hchain.drop (retired sendCqe (s.dev.posted q) (s.dev.polled q).length))).1
  have hpos : 1 ≤ c.coreDependecies.txDepth := le_trans hs.cqMod_pos hs.cqMod_le
  rw [CoreParameters.maxSendWr, hv, if_pos rfl, hd]
  rw [Device.outstanding] at hdata ⊢
  omega

def thirtyTwoWrites : SendConfig :=
  { testType := .iterations, iters := 32, txDepth := 32, cqMod := 32, postList := 1, numOfQps := 1,
    fillCount := false }

/-- A full window, with the marker of the first chunk. -/
theorem thirtyTwoWrites_outstanding : ∃ s,
    (runIterBwDv thirtyTwoWrites (oneQpRun 2048 32 (by decide) (by decide) (by decide)
      (by decide))).Reachable s ∧ (s.dev.outstanding sendCqe 0).length = 33 := by
  obtain ⟨s, hr, hs⟩ := Transition.exists_of_run
    (runIterBwDv thirtyTwoWrites (oneQpRun 2048 32 (by decide) (by decide) (by decide)
      (by decide))).IsInit
    (runIterBwDv thirtyTwoWrites (oneQpRun 2048 32 (by decide) (by decide) (by decide)
      (by decide))).act
    (.test :: List.replicate 32 .post) ⟨SendLoop.init _, .startState, .test⟩
    (fun s => (s.dev.outstanding sendCqe 0).length = 33) ⟨rfl, rfl⟩ (by decide +kernel)
  exact ⟨s, hr, by simpa using hs⟩

theorem runIterBwDv_thirtyTwo_fits : ∃ (d : PerftestParameters) (s : SendState),
    writeBwParser true [.size 2048 .none, .iters 32, .txDepth 32] = .ok d ∧
      (s.dev.outstanding sendCqe 0).length = 33 ∧
      (s.dev.outstanding sendCqe 0).length ≤ d.maxSendWr := by
  obtain ⟨d, hd, h⟩ := exists_of_toOption_any
    (x := writeBwParser true [.size 2048 .none, .iters 32, .txDepth 32])
    (p := fun d => d.dataValidation && decide (d.testType = .iterations) && decide (d.iters = 32) &&
      decide (d.txDepth = 32) && decide (d.cqMod = 32) && decide (d.postList = 1) &&
      decide (d.numOfQps = 1) && !d.fillCount) (by decide +kernel)
  simp only [Bool.and_eq_true, decide_eq_true_eq, Bool.not_eq_true'] at h
  obtain ⟨⟨⟨⟨⟨⟨⟨hv, ht⟩, hi⟩, htx⟩, hc⟩, hp⟩, hn⟩, hf⟩ := h
  have he : d.sendConfig = thirtyTwoWrites := by
    simp only [CoreParameters.sendConfig, ht, hi, htx, hc, hp, hn, hf, Int.toNat_one,
      thirtyTwoWrites]
  obtain ⟨s, hr, hs⟩ := thirtyTwoWrites_outstanding
  rw [← he] at hr
  exact ⟨d, s, hd, hs, runIterBwDv_outstanding_le hd hv hp _ s hr 0⟩

end Perftest
