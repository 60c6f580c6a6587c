import Perftest.CtxConnect
import Perftest.InitOutcome

namespace Perftest

open Custody InitResource

/-- What `destroy_ctx` gives back: the resources of `ctx_init` and the address handles of
`ctx_connect`. -/
inductive CtxResource where
  | init (r : InitResource)
  | ah (i : Nat)
deriving DecidableEq, Repr

def CtxResource.madeFrom : CtxResource → List CtxResource
  | .init r => r.madeFrom.map .init
  | .ah _ => [.init .pd]

def CtxResource.needs (s r : CtxResource) : Bool := r ∈ s.madeFrom

/-- The array `ctx->ah`, with the cells that are not null and those that were written,
`ah_allocated`, and the handles that were made. -/
structure AhTable where
  cell : Nat → Bool
  written : List Nat
  allocated : Bool
  made : List Nat

/-- `ctx->ah[i] = ibv_create_ah(..)`. -/
def AhTable.create (created : Bool) (i : Nat) (t : AhTable) : AhTable where
  cell j := if j = i then created else t.cell j
  written := t.written ++ [i]
  allocated := t.allocated || created
  made := if created then t.made ++ [i] else t.made

/-- `ctx->ah` as `malloc` returned it. -/
def AhTable.fresh (garbage : Nat → Bool) : AhTable := ⟨garbage, [], false, []⟩

namespace PerftestParameters

variable (d : PerftestParameters)

/-- The round of QP `i` comes to the creation of an address handle. -/
def reachesAh (ans : ConnectAnswers) (i : Nat) (s : ConnectState) : Bool :=
  !(s.rateLimitType = .ppRateLimit && !ans.packetPacing) && ans.rtr i && !d.staysInRtr i &&
    (!d.sends || ans.rts i) && d.needsAh

/-- What the last `k` rounds of `ctx_connect` do to `ctx->ah`. -/
def connectAhs (ans : ConnectAnswers) : Nat → Nat → ConnectState → AhTable → AhTable
  | 0, _, _, t => t
  | k + 1, i, s, t =>
    let t := if d.reachesAh ans i s then t.create (ans.createAh i) i else t
    if (d.connectQp ans i s).2 then connectAhs ans k (i + 1) (d.connectQp ans i s).1 t else t

def connectedAhs (ans : ConnectAnswers) (garbage : Nat → Bool) : AhTable :=
  d.connectAhs ans d.numOfQps 0 ⟨d.xrcOffset, d.rateLimitType, []⟩ (.fresh garbage)

/-- The local `num_of_qps` of `destroy_ctx`. -/
def destroyedHalf : Nat := if d.duplex || d.tst = .lat then d.numOfQps / 2 else d.numOfQps

/-- The QPs whose address handle `destroy_ctx` looks at. -/
def destroysAh (i : Nat) : Bool :=
  (((d.connectionType = .dc && !((!(d.duplex || d.tst = .lat) && d.machine = .server) ||
        ((d.duplex || d.tst = .lat) && d.destroyedHalf ≤ i))) ||
      d.connectionType = .ud || d.connectionType = .srd) &&
    (d.tst = .lat || d.machine = .client || d.duplex)) ||
  (d.connectionType = .srd && (d.verb = .read || d.verb = .write || d.verb = .writeImm))

end PerftestParameters

namespace InitParams

variable (p : InitParams)

/-- The first loop of `destroy_ctx`, for QP `i`. -/
def destroyQp (m : InitMarks) (t : AhTable) (i : Nat) : List CtxResource :=
  (if p.destroysAh i && (t.allocated && t.cell i) then [.ah i] else []) ++
    if !p.workRdmaCm && i < m.qpIndex then [.init (.qp i)] else []

def destroyQps (m : InitMarks) (t : AhTable) : List CtxResource :=
  (List.range p.numOfQps).flatMap (p.destroyQp m t)

/-- The rest of `destroy_ctx`, up to the completion channels. -/
def destroyInit (m : InitMarks) : List InitResource :=
  (if p.srqExists then [srq] else []) ++
  ((if p.useXrc then [xrcDomain, xrcFile] else []) ++
  ([sendCq] ++
  ((if hasRecvComp p.verb || (p.connectionType = .dc && !p.dctOnly) then [recvCq] else []) ++
  ((List.range (if p.mrPerQp then p.numOfQps else 1)).map mr ++
  ((List.range (if p.mrPerQp then p.numOfQps else 1)).flatMap p.ibvBufs ++
  ((if m.dmah then [dmah] else []) ++
  ((if p.aesXts then (List.range p.dataEncKeysNumber).map dek else []) ++
  ((if p.aesXts then (List.range p.numOfQps).map mkey else []) ++
  ((if p.sigOffload then (List.range p.numOfQps).map mkey else []) ++
  ((if m.pad then [parentDomain] else []) ++
  ((if p.noLock && m.td then [td] else []) ++ ([pd] ++ p.atCompChannel))))))))))))

/-- The destroy calls of `destroy_ctx`, for the pointers that `ctx_init` and `ctx_connect` left. -/
def destroyCtx (m : InitMarks) (t : AhTable) : List CtxResource :=
  p.destroyQps m t ++ (p.destroyInit m).map .init

/-- From `ctx_init`, where the step `failing` would fail, over `ctx_connect` to `destroy_ctx`. -/
def lifetime (failing : InitStep) (ans : ConnectAnswers) (garbage : Nat → Bool) :
    List (Event CtxResource) :=
  (p.ctxInit failing).1.trace.map (Event.map .init) ++
    (((p.connectedAhs ans garbage).made.map CtxResource.ah).map .acquire ++
      (p.destroyCtx (p.ctxInit failing).1.toInitMarks (p.connectedAhs ans garbage)).map .release)

end InitParams

/-- The table in front of the round of QP `n`. -/
structure AhTable.Kept (d : PerftestParameters) (garbage : Nat → Bool) (n : Nat) (t : AhTable) :
    Prop where
  written : ∀ i ∈ t.written, i < n ∧ d.destroysAh i = true
  made : ∀ i ∈ t.made, i ∈ t.written
  nodup : t.made.Nodup
  cell : ∀ i ∈ t.written, t.cell i = true ↔ i ∈ t.made
  stale : ∀ i ∉ t.written, t.cell i = garbage i
  allocated : t.allocated = true ↔ t.made ≠ []

section Handles

variable {d : PerftestParameters} {ans : ConnectAnswers} {garbage : Nat → Bool} {i k n : Nat}
  {s : ConnectState} {t : AhTable}

theorem AhTable.Kept.fresh (d : PerftestParameters) (garbage : Nat → Bool) :
    (AhTable.fresh garbage).Kept d garbage 0 where
  written := by
    intro i hi
    cases hi
  made := by
    intro i hi
    cases hi
  nodup := List.nodup_nil
  cell := by
    intro i hi
    cases hi
  stale := by
    intro i _
    rfl
  allocated := by simp [AhTable.fresh]

theorem AhTable.Kept.mono (h : t.Kept d garbage n) : t.Kept d garbage (n + 1) :=
  { h with written := fun i hi => ⟨Nat.lt_succ_of_lt (h.written i hi).1, (h.written i hi).2⟩ }

theorem AhTable.Kept.create (h : t.Kept d garbage n) (hn : d.destroysAh n = true)
    (created : Bool) : (t.create created n).Kept d garbage (n + 1) := by
  have hnew : ∀ i ∈ t.written, i ≠ n := by
    intro i hi heq
    have hlt := (h.written i hi).1
    omega
  have hmade : n ∉ t.made := fun hm => hnew n (h.made n hm) rfl
  constructor
  · intro i hi
    rcases List.mem_append.mp hi with hi | hi
    · exact h.mono.written i hi
    · rw [List.mem_singleton.mp hi]
      exact ⟨Nat.lt_succ_self n, hn⟩
  · intro i hi
    simp only [AhTable.create] at hi ⊢
    split at hi
    next =>
      rcases List.mem_append.mp hi with hi | hi
      · exact List.mem_append_left _ (h.made i hi)
      · exact List.mem_append_right _ hi
    next => exact List.mem_append_left _ (h.made i hi)
  · simp only [AhTable.create]
    split
    next =>
      refine List.nodup_append.mpr ⟨h.nodup, List.nodup_singleton n, fun i hi j hj heq => ?_⟩
      rw [heq, List.mem_singleton.mp hj] at hi
      exact hmade hi
    next => exact h.nodup
  · intro i hi
    rcases List.mem_append.mp hi with hi | hi
    · have hne := hnew i hi
      have hcell := h.cell i hi
      cases created <;> simp [AhTable.create, hne, hcell]
    · rw [List.mem_singleton.mp hi]
      cases created <;> simp [AhTable.create, hmade]
  · intro i hi
    simp only [AhTable.create, List.mem_append, List.mem_singleton, not_or] at hi ⊢
    rw [if_neg hi.2]
    exact h.stale i hi.1
  · have halloc := h.allocated
    cases created <;> simp [AhTable.create, halloc]

theorem PerftestParameters.destroysAh_eq (d : PerftestParameters) (i : Nat) :
    d.destroysAh i = (d.needsAh && !d.staysInRtr i) := by
  unfold destroysAh needsAh staysInRtr sends destroyedHalf
  cases hc : d.connectionType <;> cases hd : (d.duplex || d.tst = .lat) <;> simp [Bool.and_comm]

theorem PerftestParameters.reachesAh_destroys (h : d.reachesAh ans i s = true) :
    d.destroysAh i = true := by
  simp only [reachesAh, Bool.and_eq_true] at h
  rw [destroysAh_eq, h.2, h.1.1.2]
  rfl

/-- A round that goes through has come to the creation, when its QP has an address handle. -/
theorem PerftestParameters.reachesAh_of_connected (h : (d.connectQp ans i s).2 = true)
    (hd : d.destroysAh i = true) : d.reachesAh ans i s = true := by
  rw [destroysAh_eq, Bool.and_eq_true, Bool.not_eq_true'] at hd
  unfold connectQp at h
  split at h
  next => cases h
  next hpp =>
    simp only at h
    split at h
    next => cases h
    next hrtr =>
      rw [if_neg (by simp [hd.2])] at h
      unfold connectSender at h
      simp only at h
      split at h
      next => cases h
      next hrts =>
        have hpp' : s.rateLimitType = .ppRateLimit → ans.packetPacing = true := by simpa using hpp
        have hrts' : d.sends = true → ans.rts i = true := by simpa using hrts
        simp only [reachesAh, hd.1, hd.2, Bool.and_true, Bool.not_false, Bool.and_eq_true,
          Bool.not_eq_true', Bool.or_eq_true, Bool.and_eq_false_iff, decide_eq_false_iff_not,
          Bool.not_eq_false']
        refine ⟨⟨?_, by simpa using hrtr⟩, ?_⟩
        · by_cases hr : s.rateLimitType = .ppRateLimit
          · exact .inr (hpp' hr)
          · exact .inl hr
        · cases hs : d.sends with
          | false => exact .inl rfl
          | true => exact .inr (hrts' hs)

theorem PerftestParameters.connectAhs_kept (k : Nat) {i : Nat} {s : ConnectState} {t : AhTable}
    (h : t.Kept d garbage i) : (d.connectAhs ans k i s t).Kept d garbage (i + k) := by
  induction k generalizing i s t with
  | zero => exact h
  | succ k ih =>
    have hround : (if d.reachesAh ans i s then t.create (ans.createAh i) i else t).Kept d garbage
        (i + 1) := by
      split
      next hr => exact h.create (d.reachesAh_destroys hr) _
      next => exact h.mono
    have hrest : ∀ m, (i + 1) + m = i + (m + 1) := fun m => by omega
    unfold connectAhs
    simp only
    split
    next =>
      rw [← hrest]
      exact ih hround
    next =>
      rw [← hrest]
      exact { hround with written := fun j hj =>
        ⟨Nat.lt_of_lt_of_le (hround.written j hj).1 (by omega), (hround.written j hj).2⟩ }

theorem PerftestParameters.connectAhs_written (k : Nat) {i : Nat} {s : ConnectState} {t : AhTable}
    (hc : (d.connectFrom ans k i s).2 = true)
    (h : ∀ j < i, d.destroysAh j = true → j ∈ t.written) :
    ∀ j < i + k, d.destroysAh j = true → j ∈ (d.connectAhs ans k i s t).written := by
  induction k generalizing i s t with
  | zero => exact h
  | succ k ih =>
    obtain ⟨r, hr⟩ : ∃ r, d.connectQp ans i s = r := ⟨_, rfl⟩
    obtain ⟨s', b⟩ := r
    unfold connectFrom at hc
    unfold connectAhs
    simp only [hr] at hc ⊢
    cases b with
    | false => cases hc
    | true =>
      rw [if_pos rfl]
      intro j hj hd
      refine ih hc ?_ j (by omega) hd
      intro j hj hd
      by_cases hji : j = i
      · rw [hji] at hd ⊢
        rw [if_pos (d.reachesAh_of_connected (by rw [hr]) hd)]
        exact List.mem_append_right _ (List.mem_singleton_self i)
      · have hold := h j (by omega) hd
        split
        next => exact List.mem_append_left _ hold
        next => exact hold

end Handles

end Perftest
