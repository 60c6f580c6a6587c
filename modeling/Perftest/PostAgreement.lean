import Perftest.ParsedRanges
import Perftest.PostApis

namespace Perftest

open Checked

/-- The verbs that the parser lets through for the transports that have not all of them. -/
structure CoreParameters.VerbFits (c : CoreParameters) : Prop where
  uc : c.connectionType = .uc → c.verb ≠ .read ∧ c.verb ≠ .atomic
  ud : c.connectionType = .ud → c.verb = .send ∨ c.verb = .sendImm
  mcg : c.useMcg = true → c.verb = .send ∨ c.verb = .sendImm

theorem initPerftestParams_verbFits (prog : Program) (other : OtherParameters) :
    (initPerftestParams prog other).toCoreParameters.VerbFits := by
  refine ⟨fun h => ?_, fun h => ?_, fun h => ?_⟩
  · simp only [initPerftestParams] at h
    split at h <;> cases h
  · simp only [initPerftestParams] at h
    split at h <;> cases h
  · cases h

theorem changeConnType_fits {b : Build} {conn conn' : ConnectionType} {verb : VerbType}
    {arg : String} (h : changeConnType b conn verb arg = .ok conn') :
    (conn' = .uc → verb ≠ .read ∧ verb ≠ .atomic) ∧
      (conn' = .ud → verb = .send ∨ verb = .sendImm) := by
  have hother : ∀ k : ConnectionType, k ≠ .uc → k ≠ .ud →
      (Except.ok k : Except String ConnectionType) = .ok conn' →
        (conn' = .uc → verb ≠ .read ∧ verb ≠ .atomic) ∧
          (conn' = .ud → verb = .send ∨ verb = .sendImm) := by
    intro k hu hd hk
    cases hk
    exact ⟨fun he => absurd he hu, fun he => absurd he hd⟩
  unfold changeConnType at h
  rcases ite_eq_iff.mp h with ⟨hraw, h⟩ | ⟨-, h⟩
  · exact hother _ (by rw [hraw]; decide) (by rw [hraw]; decide) h
  rcases ite_eq_iff.mp h with ⟨-, h⟩ | ⟨-, h⟩
  · exact hother _ (by decide) (by decide) h
  rcases ite_eq_iff.mp h with ⟨-, h⟩ | ⟨-, h⟩
  · obtain ⟨hv, h⟩ := ite_error_eq_ok h
    rw [← h]
    push Not at hv
    exact ⟨fun _ => hv, fun he => (by cases he)⟩
  rcases ite_eq_iff.mp h with ⟨-, h⟩ | ⟨-, h⟩
  · obtain ⟨hv, h⟩ := ite_error_eq_ok h
    rw [← h]
    refine ⟨fun he => (by cases he), fun _ => ?_⟩
    by_contra hn
    push Not at hn
    exact hv hn
  rcases ite_eq_iff.mp h with ⟨-, h⟩ | ⟨-, h⟩
  · exact hother _ (by decide) (by decide) h
  rcases ite_eq_iff.mp h with ⟨-, h⟩ | ⟨-, h⟩
  · rcases ite_eq_iff.mp h with ⟨-, h⟩ | ⟨-, h⟩
    · exact hother _ (by decide) (by decide) h
    · cases h
  rcases ite_eq_iff.mp h with ⟨-, h⟩ | ⟨-, h⟩
  · rcases ite_eq_iff.mp h with ⟨-, h⟩ | ⟨-, h⟩
    · exact hother _ (by decide) (by decide) h
    · cases h
  rcases ite_eq_iff.mp h with ⟨-, h⟩ | ⟨-, h⟩
  · rcases ite_eq_iff.mp h with ⟨-, h⟩ | ⟨-, h⟩
    · cases h
    · obtain ⟨-, h⟩ := ite_error_eq_ok h
      exact hother .srd (by decide) (by decide) (by rw [h])
  · cases h

/-- No option leads to a verb that the transport has not. -/
theorem parseOpt_verbFits {b : Build} {c c' : CoreParameters} {opt : Opt} (hc : c.VerbFits)
    (h : parseOpt b c opt = .ok c') : c'.VerbFits := by
  cases opt with
  | connection arg =>
    obtain ⟨conn, hconn, rfl⟩ := map_eq_ok h
    obtain ⟨huc, hud⟩ := changeConnType_fits hconn
    exact { hc with uc := huc, ud := hud }
  | mcg =>
    obtain ⟨hv, rfl⟩ := ite_error_eq_ok h
    exact { hc with mcg := fun _ => .inl (by simpa using hv) }
  | writeWithImm =>
    obtain ⟨hv, rfl⟩ := ite_error_eq_ok h
    have hw : c.verb = .write := by
      by_contra hn
      exact hv (.inr hn)
    refine ⟨fun _ => ⟨by simp, by simp⟩, fun he => ?_, fun he => ?_⟩
    · rcases hc.ud he with h1 | h1 <;> rw [hw] at h1 <;> cases h1
    · rcases hc.mcg he with h1 | h1 <;> rw [hw] at h1 <;> cases h1
  | sendWithImm =>
    obtain ⟨-, rfl⟩ := ite_error_eq_ok h
    exact ⟨fun _ => ⟨by simp, by simp⟩, fun _ => .inr rfl, fun _ => .inr rfl⟩
  | txDepth value | cqMod value =>
    obtain ⟨n, -, rfl⟩ := map_eq_ok h
    exact { hc with }
  | rxDepth value | qp value =>
    obtain ⟨n, -, h⟩ := bind_eq_ok h
    obtain ⟨-, rfl⟩ := ite_error_eq_ok h
    exact { hc with }
  | size value suffix | iters value | duration value | bidirectional =>
    obtain ⟨-, rfl⟩ := ite_error_eq_ok h
    exact { hc with }
  | _ =>
    cases h
    exact { hc with }

theorem coreDependecies_transport (c : CoreParameters) : c.coreDependecies.verb = c.verb ∧
    c.coreDependecies.useMcg = c.useMcg ∧ c.coreDependecies.dataValidation = c.dataValidation ∧
    c.coreDependecies.postList = c.postList ∧
    c.coreDependecies.connectionType = if c.useMcg then .ud else c.connectionType := by
  simp only [CoreParameters.coreDependecies, CoreParameters.setFillCount,
    CoreParameters.evenRxDepth, CoreParameters.forceSrd, CoreParameters.forceInfinitely,
    CoreParameters.forceMcg, CoreParameters.forceMacFwd, CoreParameters.forceDuration,
    CoreParameters.forcePostList, CoreParameters.forceDualport, CoreParameters.forceTransport,
    CoreParameters.deriveGeometry, CoreParameters.forceSize, CoreParameters.clampCqMod,
    CoreParameters.limitCqMod, CoreParameters.forceDepths, true_and]
  by_cases h : c.useMcg = true <;> simp only [h, if_true, Bool.false_eq_true, if_false]

/-- What data validation asks of the verb and the transport. -/
theorem forceDependecies_dataValidation {b : Build} {p q : PerftestParameters}
    (h : forceDependecies b p = .ok q) (hd : p.dataValidation = true) :
    (p.verb = .write ∨ p.verb = .read) ∧ p.connectionType = .rc ∧ p.postList ≤ 1 := by
  obtain ⟨hp, -⟩ := runAll_eq_ok_iff.mp h
  have hst := (@Passes.append _ (((dependecies b).take 6).map Prod.fst)
    (((dependecies b).drop 6).map Prod.fst) _ hp).2.1
  have hcore : (updates (((dependecies b).take 6).map Prod.fst) p).toCoreParameters =
      p.forceDepths.limitCqMod.clampCqMod.forceSize := rfl
  generalize updates (((dependecies b).take 6).map Prod.fst) p = s at hst hcore
  have hkept : s.verb = p.verb ∧ s.connectionType = p.connectionType ∧
      s.dataValidation = p.dataValidation ∧ s.postList = p.postList := by
    simp only [hcore, CoreParameters.forceSize, CoreParameters.clampCqMod,
      CoreParameters.limitCqMod, CoreParameters.forceDepths, and_self]
  have hin : ∀ e ∈ (dataValidationStage b).checks s, e.1 = false := hst
  simp only [dataValidationStage, hkept.2.2.1, hd, Bool.not_true, Bool.false_eq_true, if_false,
    List.mem_cons, List.not_mem_nil, or_false, forall_eq_or_imp, forall_eq, hkept] at hin
  obtain ⟨-, -, hv, -, hl, -, hc, -⟩ := hin
  refine ⟨?_, by simpa using hc, by simpa using hl⟩
  by_contra hn
  push Not at hn
  simp [hn] at hv

/-- What an accepted command line says of the verb, the transport and data validation. -/
theorem parser_verbFits {b : Build} {prog : Program} {other : OtherParameters}
    {servername : Bool} {args : List Opt} {q : PerftestParameters}
    (h : parser b prog other servername args = .ok q) : q.toCoreParameters.VerbFits ∧
      (q.dataValidation = true → (q.verb = .write ∨ q.verb = .read) ∧ q.connectionType = .rc ∧
        q.postList ≤ 1) := by
  obtain ⟨p, hp, hq⟩ := bind_eq_ok h
  obtain ⟨c, hc, rfl⟩ := map_eq_ok hp
  have hfits : c.VerbFits := parseArgs_invariant (fun _ _ _ hc h => parseOpt_verbFits hc h)
    (initPerftestParams_verbFits prog other) hc
  have hcore := forceDependecies_core hq
  have hdv := forceDependecies_dataValidation hq
  obtain ⟨hverb, hmcg, hval, hlist, hconn⟩ := coreDependecies_transport
    { applyFlags args c with machine := chooseMachine servername other.isReversed (applyFlags args c) }
  rw [← hcore] at hverb hmcg hval hlist hconn
  have hv : q.verb = c.verb := hverb
  have hc : q.connectionType = if c.useMcg then .ud else c.connectionType := hconn
  refine ⟨⟨fun he => ?_, fun he => ?_, fun he => ?_⟩, fun hd => ?_⟩
  · rw [hc] at he
    split at he
    next => cases he
    next =>
      rw [hv]
      exact hfits.uc he
  · rw [hc] at he
    rw [hv]
    split at he
    next hm => exact hfits.mcg hm
    next => exact hfits.ud he
  · rw [hv]
    exact hfits.mcg (hmcg.symm.trans he)
  · obtain ⟨hw, hrc, hl⟩ := hdv (hval.symm.trans hd)
    have hw' : c.verb = .write ∨ c.verb = .read := hw
    have hm : c.useMcg = false := by
      cases hm : c.useMcg with
      | false => rfl
      | true =>
        rcases hfits.mcg hm with h1 | h1 <;> rcases hw' with h2 | h2 <;> rw [h1] at h2 <;> cases h2
    rw [hv, hc, hm]
    exact ⟨hw', hrc, hlist ▸ hl⟩

section Walk

variable {ctx : PostCtx} {mem : Nat → UInt8} {size index : Nat} {inl : Bool} {qpt : QpType}
  {conn : ConnectionType} {wr : Nat → SendWr}

theorem newOp_eq (w : SendWr) : w.newOp = w.postedOp := rfl

/-- The two interfaces hand the device the same request. -/
def SameRequest (ctx : PostCtx) (mem : Nat → UInt8) (size index : Nat) (inl : Bool) (qpt : QpType)
    (conn : ConnectionType) (w : SendWr) : Prop :=
  w.newPosted ctx mem size inl index qpt conn = w.posted mem qpt

/-- The destinations agree on all QPs but those of a driver. -/
theorem newDest_eq (w : SendWr) (hq : qpt ≠ .driver) :
    w.newDest ctx index qpt conn = w.postedDest qpt := by
  cases qpt with
  | driver => exact absurd rfl hq
  | _ => rfl

theorem sameRequest_of (w : SendWr) (hq : qpt ≠ .driver) (hi : w.inl = inl)
    (hl : inl = true → w.sge.length = size) : SameRequest ctx mem size index inl qpt conn w := by
  unfold SameRequest SendWr.newPosted SendWr.posted
  rw [newDest_eq w hq, newOp_eq]
  cases inl with
  | true => simp only [hi, if_true, hl rfl]
  | false => simp only [hi, Bool.false_eq_true, if_false]

/-- A request whose flags say otherwise than `inl` is posted otherwise. -/
theorem inl_of_sameRequest {w : SendWr} (h : SameRequest ctx mem size index inl qpt conn w) :
    w.inl = inl := by
  have hd := congrArg PostedRequest.data h
  simp only [SendWr.newPosted, SendWr.posted] at hd
  cases hw : w.inl <;> cases hi : inl <;> simp [hw, hi] at hd ⊢

/-- The places of a chain. -/
def Linked (wr : Nat → SendWr) : List Nat → Prop
  | [] => True
  | [k] => (wr k).next = none
  | k :: m :: l => (wr k).next = some m ∧ Linked wr (m :: l)

theorem newPostSend_linked {k n : Nat} {l : List Nat} (hl : Linked wr (k :: l))
    (hn : l.length + 1 ≤ n) : newPostSend ctx mem size inl index qpt conn wr n (some k) =
      (k :: l).map fun m => (wr m).newPosted ctx mem size inl index qpt conn := by
  induction l generalizing k n with
  | nil =>
    obtain ⟨n, rfl⟩ := Nat.exists_eq_add_of_le' hn
    have hk : (wr k).next = none := hl
    simp only [newPostSend, hk, List.map_cons, List.map_nil]
    cases n <;> rfl
  | cons m l ih =>
    obtain ⟨n, rfl⟩ := Nat.exists_eq_add_of_le' (Nat.le_trans (Nat.le_add_left 1 _) hn)
    obtain ⟨hk, hl⟩ := hl
    simp only [newPostSend, hk]
    rw [ih hl (by simp only [List.length_cons] at hn; omega)]
    rfl

theorem ibvPostSend_linked {k n : Nat} {l : List Nat} (hl : Linked wr (k :: l))
    (hn : l.length + 1 ≤ n) : ibvPostSend mem qpt wr n (some k) =
      (k :: l).map fun m => (wr m).posted mem qpt := by
  induction l generalizing k n with
  | nil =>
    obtain ⟨n, rfl⟩ := Nat.exists_eq_add_of_le' hn
    have hk : (wr k).next = none := hl
    simp only [ibvPostSend, hk, List.map_cons, List.map_nil]
    cases n <;> rfl
  | cons m l ih =>
    obtain ⟨n, rfl⟩ := Nat.exists_eq_add_of_le' (Nat.le_trans (Nat.le_add_left 1 _) hn)
    obtain ⟨hk, hl⟩ := hl
    simp only [ibvPostSend, hk]
    rw [ih hl (by simp only [List.length_cons] at hn; omega)]
    rfl

end Walk

/-- The changes that a test makes to a request of `ctx_set_send_reg_wqes` between two posts. -/
def UpdatedWr (w w' : SendWr) : Prop :=
  ∃ s a r t, w' = { w with
    signaled := s
    sge := ⟨⟨a, w.sge.length⟩, w.sge.lkey⟩
    rdmaRemoteAddr := r
    atomicRemoteAddr := t }

/-- The chains that a test posts: the array, the QP and the places of the requests. -/
inductive BuiltChain (q : PerftestParameters) (x : WqeCtx) :
    (Nat → SendWr) → Nat → List Nat → Prop
  | reg {i : Nat} {wr : Nat → SendWr} (hd : q.dataValidation = false) (hi : i < q.wqeQps)
      (hl : 0 < q.listLength) (hw : ∀ k, UpdatedWr (q.ctxSetSendRegWqes x k) (wr k)) :
      BuiltChain q x wr i (List.range' (i * q.listLength) q.listLength)
  | dataVal {i : Nat} (signaled : Bool) (post : DvPost) (hd : q.dataValidation = true)
      (hi : i < q.numOfQps) (hl : 0 < q.listLength) :
      BuiltChain q x (q.dataValWqes x i signaled post) i
        (i :: if post.next.isSome then [i + q.numOfQps] else [])

/-- Both interfaces post the requests of a chain, and the same ones. -/
def ApisAgree (q : PerftestParameters) (x : WqeCtx) (ctx : PostCtx) (mem : Nat → UInt8)
    (wr : Nat → SendWr) (i : Nat) (count : Nat) : Prop :=
  ∃ f, ctxPostSendWorkRequestFuncPointer q.connectionType q.verb q.aesXts x.size x.inlineSize =
      some f ∧ f.enc = false ∧ ∀ n, count ≤ n →
    (newPostSend ctx mem x.size f.inl i f.qpt q.connectionType wr n
      (some (i * q.listLength))).length = count ∧
    newPostSend ctx mem x.size f.inl i f.qpt q.connectionType wr n (some (i * q.listLength)) =
      ibvPostSend mem (qpTypeOf q.connectionType) wr n (some (i * q.listLength))

section Chains

variable {q : PerftestParameters} {x : WqeCtx} {ctx : PostCtx} {mem : Nat → UInt8}
  {wr : Nat → SendWr} {i : Nat} {places : List Nat}

/-- The function that is chosen for the transports that have both interfaces. -/
theorem funcPointer_cases (hf : q.toCoreParameters.VerbFits) (ha : q.aesXts = false)
    (hc : q.connectionType = .rc ∨ q.connectionType = .uc ∨ q.connectionType = .ud ∨
      q.connectionType = .xrc) :
    ctxPostSendWorkRequestFuncPointer q.connectionType q.verb q.aesXts x.size x.inlineSize =
      some ⟨decide ((q.verb ≠ .read ∧ q.verb ≠ .atomic) ∧ x.size ≤ x.inlineSize),
        qpTypeOf q.connectionType, false⟩ := by
  have hinl : ∀ v : VerbType, v ≠ .read → v ≠ .atomic → decide (x.size ≤ x.inlineSize) =
      decide ((v ≠ .read ∧ v ≠ .atomic) ∧ x.size ≤ x.inlineSize) := by
    intro v hr ha
    exact decide_eq_decide.mpr (and_iff_right ⟨hr, ha⟩).symm
  have hsge : ∀ v : VerbType, v = .read ∨ v = .atomic →
      false = decide ((v ≠ .read ∧ v ≠ .atomic) ∧ x.size ≤ x.inlineSize) := by
    rintro v (rfl | rfl)
    · exact (decide_eq_false fun h => h.1.1 rfl).symm
    · exact (decide_eq_false fun h => h.1.2 rfl).symm
  rcases hc with hc | hc | hc | hc
  · rw [hc, ha]
    cases q.verb with
    | send | sendImm | write | writeImm =>
      rw [← hinl _ (by decide) (by decide)]
      rfl
    | read | atomic =>
      rw [← hsge _ (by decide)]
      rfl
  · obtain ⟨hr, hat⟩ := hf.uc hc
    rw [hc, ha]
    cases hv : q.verb with
    | send | sendImm | write | writeImm =>
      rw [← hinl _ (by decide) (by decide)]
      rfl
    | read => exact absurd hv hr
    | atomic => exact absurd hv hat
  · rw [hc, ha]
    rcases hf.ud hc with hv | hv
    · rw [hv, ← hinl _ (by decide) (by decide)]
      rfl
    · rw [hv, ← hinl _ (by decide) (by decide)]
      rfl
  · rw [hc, ha]
    cases q.verb with
    | send | sendImm | write | writeImm =>
      rw [← hinl _ (by decide) (by decide)]
      rfl
    | read | atomic =>
      rw [← hsge _ (by decide)]
      rfl

/-- A chain of neighbours. -/
theorem linked_range' {a n : Nat} (hs : ∀ j, j < n → (wr (a + j)).next = some (a + j + 1))
    (he : (wr (a + n)).next = none) : Linked wr (List.range' a (n + 1)) := by
  induction n generalizing a with
  | zero => exact he
  | succ n ih =>
    rw [List.range'_succ, List.range'_succ]
    refine ⟨hs 0 (by omega), ?_⟩
    have := ih (a := a + 1) (fun j hj => ?_) (by rw [show a + 1 + n = a + (n + 1) by omega]; exact he)
    · rwa [List.range'_succ] at this
    · have h1 := hs (j + 1) (by omega)
      rwa [show a + (j + 1) = a + 1 + j by omega] at h1

theorem ctxSetSendRegWqes_at {j : Nat} (hi : i < q.wqeQps) (hj : j < q.listLength) :
    q.ctxSetSendRegWqes x (i * q.listLength + j) = q.regWqe x i j := by
  have hk : i * q.listLength + j < q.wqeQps * q.listLength := by
    have : (i + 1) * q.listLength ≤ q.wqeQps * q.listLength := Nat.mul_le_mul_right _ hi
    rw [Nat.add_mul] at this
    omega
  rw [PerftestParameters.ctxSetSendRegWqes, if_pos hk, Nat.mul_comm, Nat.mul_add_div (by omega),
    Nat.div_eq_of_lt hj, Nat.add_zero, Nat.mul_add_mod, Nat.mod_eq_of_lt hj]

/-- The fetch-and-add behind a data request ends the chain and never takes its operand inline. -/
theorem dataValWqes_atomic {s : Bool} {post : DvPost} (hi : i < q.numOfQps) :
    (q.dataValWqes x i s post (i + q.numOfQps)).next = none ∧
      (q.dataValWqes x i s post (i + q.numOfQps)).inl = false := by
  unfold PerftestParameters.dataValWqes
  rw [if_neg (by omega), if_pos rfl]
  cases post.next with
  | none => exact ⟨rfl, rfl⟩
  | some a => exact ⟨rfl, rfl⟩

theorem dataValWqes_data {s : Bool} {post : DvPost} :
    (q.dataValWqes x i s post i).next = post.next.map (fun _ => i + q.numOfQps) ∧
      (q.dataValWqes x i s post i).inl = false := by
  unfold PerftestParameters.dataValWqes
  rw [if_pos rfl]
  exact ⟨rfl, rfl⟩

/-- The requests of a chain lie one behind the other from the place where the posts start. -/
theorem BuiltChain.linked (h : BuiltChain q x wr i places)
    (hl : q.dataValidation = true → q.postList ≤ 1) :
    ∃ l, places = i * q.listLength :: l ∧ Linked wr places := by
  cases h with
  | reg hd hi hpos hw =>
    obtain ⟨n, hn⟩ := Nat.exists_eq_add_of_le' hpos
    refine ⟨List.range' (i * q.listLength + 1) n, ?_, ?_⟩
    · rw [hn, List.range'_succ]
    · have hnext : ∀ j, j < q.listLength → (wr (i * q.listLength + j)).next =
          if j + 1 = q.listLength then none else some (i * q.listLength + j + 1) := by
        intro j hj
        obtain ⟨s, a, r, t, he⟩ := hw (i * q.listLength + j)
        rw [he, ctxSetSendRegWqes_at hi hj]
        rfl
      have hlink := @linked_range' wr (i * q.listLength) n
        (fun j hj => by rw [hnext j (by omega), if_neg (by omega)])
        (by rw [hnext n (by omega), if_pos (by omega)])
      rw [← hn] at hlink
      exact hlink
  | dataVal s post hd hi hpos =>
    have h1 : q.listLength = 1 := by
      have := hl hd
      unfold PerftestParameters.listLength at hpos ⊢
      omega
    refine ⟨_, by rw [h1, Nat.mul_one], ?_⟩
    have hnext := (@dataValWqes_data q x i s post).1
    cases hn : post.next with
    | none =>
      rw [hn] at hnext
      exact hnext
    | some a =>
      rw [hn] at hnext
      exact ⟨hnext, (dataValWqes_atomic hi).1⟩

/-- Whether the requests of a chain take their data inline. -/
theorem BuiltChain.inl (h : BuiltChain q x wr i places)
    (hc : q.connectionType ≠ .rawEth) (hs : x.size < 2 ^ 31) : ∀ k ∈ places,
      (wr k).inl = decide (q.dataValidation = false ∧ (q.verb ≠ .read ∧ q.verb ≠ .atomic) ∧
        x.size ≤ x.inlineSize) ∧
      (q.dataValidation = false → (wr k).sge.length = x.size) := by
  cases h with
  | reg hd hi hpos hw =>
    intro k hk
    obtain ⟨j, hj, rfl⟩ := List.mem_range'.1 hk
    obtain ⟨s, a, r, t, he⟩ := hw (i * q.listLength + 1 * j)
    rw [he]
    simp only [Nat.one_mul, ctxSetSendRegWqes_at hi hj, PerftestParameters.regWqe, hc, if_false,
      hd, true_and, forall_const]
    refine ⟨?_, Nat.mod_eq_of_lt (by omega)⟩
    cases q.verb <;> simp
  | dataVal s post hd hi hpos =>
    intro k hk
    have hz : (q.dataValWqes x i s post k).inl = false := by
      rcases List.mem_cons.1 hk with rfl | hk
      · exact dataValWqes_data.2
      · split at hk
        next =>
          rw [List.mem_singleton.1 hk]
          exact (dataValWqes_atomic hi).2
        next => cases hk
    refine ⟨?_, fun h => ?_⟩
    · rw [hz, hd]
      simp
    · rw [hd] at h
      cases h

/-- For every accepted command line on a connected or datagram transport, without encryption, both
interfaces post the same requests for every chain, unless data validation writes messages that fit
inline. -/
theorem apisAgree_iff {b : Build} {prog : Program} {other : OtherParameters} {servername : Bool}
    {args : List Opt} (h : parser b prog other servername args = .ok q)
    (hc : q.connectionType = .rc ∨ q.connectionType = .uc ∨ q.connectionType = .ud ∨
      q.connectionType = .xrc) (ha : q.aesXts = false) (hs : x.size < 2 ^ 31)
    (hb : BuiltChain q x wr i places) : ApisAgree q x ctx mem wr i places.length ↔
      ¬ (q.dataValidation = true ∧ q.verb = .write ∧ x.size ≤ x.inlineSize) := by
  obtain ⟨hfits, hdv⟩ := parser_verbFits h
  obtain ⟨l, hpl, hlink⟩ := hb.linked fun hd => (hdv hd).2.2
  have hraw : q.connectionType ≠ .rawEth := by
    rcases hc with hc | hc | hc | hc <;> rw [hc] <;> decide
  have hdrv : qpTypeOf q.connectionType ≠ .driver := by
    rcases hc with hc | hc | hc | hc <;> rw [hc] <;> decide
  have hinl := hb.inl hraw hs
  have hfp := funcPointer_cases (x := x) hfits ha hc
  rw [hpl] at hlink
  constructor
  · rintro ⟨f, hf, -, hag⟩ ⟨hd, hv, hle⟩
    rw [hfp] at hf
    obtain rfl := Option.some.inj hf
    have hall := (hag places.length (Nat.le_refl _)).2
    rw [newPostSend_linked hlink (by rw [hpl]; rfl), ibvPostSend_linked hlink (by rw [hpl]; rfl)]
      at hall
    simp only [List.map_cons, List.cons.injEq] at hall
    have hfirst := inl_of_sameRequest hall.1
    rw [(hinl _ (by rw [hpl]; exact List.mem_cons_self)).1, hd, hv] at hfirst
    simp [hle] at hfirst
  · intro hn
    refine ⟨_, hfp, rfl, fun n hcount => ?_⟩
    rw [newPostSend_linked hlink (by rw [hpl] at hcount; exact hcount),
      ibvPostSend_linked hlink (by rw [hpl] at hcount; exact hcount), ← hpl]
    refine ⟨List.length_map _, List.map_congr_left fun k hk => ?_⟩
    obtain ⟨hki, hkl⟩ := hinl k hk
    cases hd : q.dataValidation with
    | false =>
      refine sameRequest_of _ hdrv ?_ fun _ => hkl hd
      rw [hki, hd]
      simp
    | true =>
      have hno : ¬ ((q.verb ≠ .read ∧ q.verb ≠ .atomic) ∧ x.size ≤ x.inlineSize) := by
        rintro ⟨⟨hr, -⟩, hle⟩
        rcases (hdv hd).1 with hw | hw
        · exact hn ⟨hd, hw, hle⟩
        · exact hr hw
      refine sameRequest_of _ hdrv ?_ fun he => ?_
      · rw [hki, hd]
        simp [hno]
      · simp [hno] at he

end Chains

/-- `ib_write_bw --data_validation -s 64 -I inlineSize`, on a host that supports it. -/
def inlineWriteBw (inlineSize : Int) : Except String PerftestParameters :=
  parser { haveXrcd := true, haveMlx5dv := true, haveSrd := false, haveSrdQpSl := false
           haveAesXts := false, haveSigOffload := false, haveDcs := true, haveIbvWrApi := true
           haveCcUnprotectedAlloc := false, haveHnsdv := false, haveRegMrEx := false
           hostValidationRuntimeSupported := true, disableMlx5ScatterToCqe := false }
    ⟨.write, .bw, false⟩ { inlineSize := inlineSize } true [.dataValidation, .size 64 .none]

/-- The buffers of that test on one QP. -/
def inlineWqeCtx (inlineSize : Nat) : WqeCtx where
  size := 64
  inlineSize := inlineSize
  atomicType := .fetchAndAdd
  bufferSize := 64
  cycleBuffer := 4096
  cacheLineSize := 64
  buf := fun _ => 4096
  lkey := fun _ => 1
  nullLkey := 0
  ah := fun _ => 0
  vaddr := fun _ => 8192
  rkey := fun _ => 2
  qpn := fun _ => 17
  srqn := fun _ => 0
  cmRemoteQpn := fun _ => 0
  cmRemoteQkey := fun _ => 0
  tailMarkersVaddr := 16384
  dataSge := fun _ => ⟨4096, 64⟩
  atomicSge := fun _ => ⟨12288, 8⟩
  prior := fun _ => zeroWr

/-- The last write of a chunk. -/
def inlineDvPost : DvPost := ⟨⟨4096, 64⟩, 8192, some ⟨16384, ⟨12288, 8⟩⟩⟩

/-- What is the same of the two command lines below. -/
def inlineWriteFacts (q : PerftestParameters) : Bool :=
  q.dataValidation && decide (q.connectionType = .rc) && decide (q.verb = .write) && !q.aesXts &&
    decide (q.postList = 1) && decide (q.numOfQps = 1)

/-- Without inline data both interfaces post the write and the fetch-and-add alike. -/
theorem inlineWriteBw_zero_agrees : ∃ q, inlineWriteBw 0 = .ok q ∧
    BuiltChain q (inlineWqeCtx 0) (q.dataValWqes (inlineWqeCtx 0) 0 true inlineDvPost) 0
      [0, 0 + q.numOfQps] ∧
    ApisAgree q (inlineWqeCtx 0) ⟨fun _ => 0, fun _ => 0, fun _ => 0⟩ (fun _ => 0)
      (q.dataValWqes (inlineWqeCtx 0) 0 true inlineDvPost) 0 2 := by
  obtain ⟨q, hq, hr⟩ := exists_of_toOption_any (x := inlineWriteBw 0)
    (p := inlineWriteFacts) (by decide +kernel)
  simp only [inlineWriteFacts, Bool.and_eq_true, Bool.not_eq_true', decide_eq_true_eq] at hr
  obtain ⟨⟨⟨⟨⟨hd, hc⟩, hv⟩, ha⟩, hp⟩, hn⟩ := hr
  have hb : BuiltChain q (inlineWqeCtx 0) (q.dataValWqes (inlineWqeCtx 0) 0 true inlineDvPost) 0
      [0, 0 + q.numOfQps] :=
    .dataVal true inlineDvPost hd (by omega) (by simp [PerftestParameters.listLength, hp])
  refine ⟨q, hq, hb, (apisAgree_iff hq (.inl hc) ha ?_ hb).2 ?_⟩
  · show 64 < 2 ^ 31
    omega
  · rintro ⟨-, -, hle⟩
    exact absurd hle (by decide)

/-- With `-I 128` the new interface posts both inline, and the old one none. -/
theorem inlineWriteBw_128_differs : ∃ q, inlineWriteBw 128 = .ok q ∧
    q.connectionType = .rc ∧ q.aesXts = false ∧
    BuiltChain q (inlineWqeCtx 128) (q.dataValWqes (inlineWqeCtx 128) 0 true inlineDvPost) 0
      [0, 0 + q.numOfQps] ∧
    ¬ ApisAgree q (inlineWqeCtx 128) ⟨fun _ => 0, fun _ => 0, fun _ => 0⟩ (fun _ => 0)
      (q.dataValWqes (inlineWqeCtx 128) 0 true inlineDvPost) 0 2 := by
  obtain ⟨q, hq, hr⟩ := exists_of_toOption_any (x := inlineWriteBw 128)
    (p := inlineWriteFacts) (by decide +kernel)
  simp only [inlineWriteFacts, Bool.and_eq_true, Bool.not_eq_true', decide_eq_true_eq] at hr
  obtain ⟨⟨⟨⟨⟨hd, hc⟩, hv⟩, ha⟩, hp⟩, hn⟩ := hr
  have hl : q.listLength = 1 := by simp [PerftestParameters.listLength, hp]
  refine ⟨q, hq, hc, ha,
    .dataVal true inlineDvPost hd (by omega) (by omega), fun hag => ?_⟩
  obtain ⟨f, hf, -, hall⟩ := hag
  have h2 := (hall 2 (Nat.le_refl 2)).2
  rw [hc, hv, ha] at hf
  obtain rfl := Option.some.inj hf
  rw [hc, hl] at h2
  have hfirst := inl_of_sameRequest (List.cons.inj h2).1
  rw [dataValWqes_data.2] at hfirst
  exact absurd hfirst (by decide)

end Perftest
