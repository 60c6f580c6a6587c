import Perftest.SendParameters
import Perftest.Lib.Transition
import Perftest.Lib.WorkQueue

namespace Perftest

open WorkQueue Transition

/-- The bits of `send_flags` that the tests set. -/
structure SendFlags where
  signaled : Bool
  inlined : Bool
deriving DecidableEq, Repr

/-- A signaled request leaves a completion. -/
def SendFlags.cqe (f : SendFlags) : Option Unit := if f.signaled then some () else none

/-- What `perform_warm_up` reads: the flags are those of the post list of each QP. -/
structure WarmConfig where
  txDepth : Nat
  postList : Int
  numOfQps : Nat
  sendFlags : Nat → SendFlags

/-- The flags of `ctx_set_send_reg_wqes` or of the requests of a validated run. -/
def CoreParameters.warmConfig (d : CoreParameters) (inlined : Bool) : WarmConfig where
  txDepth := d.txDepth
  postList := d.postList
  numOfQps := d.sendQps
  sendFlags j := ⟨d.dataValidation || (j + 1) % d.cqMod = 0, inlined⟩

/-- Where `perform_warm_up` stands: in front of a QP, posting on it or waiting for its completions,
with `warmindex`, or behind its end. -/
inductive WarmPc where
  | enter (q : Nat) | post (q : Nat) (warmindex : Int) | wait (q : Nat) (warmindex : Int) | done
deriving DecidableEq, Repr

structure WarmState where
  sendFlags : Nat → Nat → SendFlags
  setSignaled : Bool
  dev : Device SendFlags Unit
  pc : WarmPc

namespace WarmConfig

variable (c : WarmConfig)

def warmupsession : Int := if c.postList = 1 then c.txDepth else c.postList

/-- The start, with a clean pipe. -/
def init : WarmState where
  sendFlags := fun _ => c.sendFlags
  setSignaled := false
  dev := Device.empty
  pc := .enter 0

/-- A completion is asked for on the request of QP `q`. -/
def askSignal (s : WarmState) (q : Nat) : WarmState :=
  if c.postList = 1 ∧ ¬ (s.sendFlags q 0).signaled then
    { s with
      sendFlags := Function.update s.sendFlags q
        (Function.update (s.sendFlags q) 0 { s.sendFlags q 0 with signaled := true })
      setSignaled := true }
  else s

/-- The flag is cleared again. -/
def clearSignal (s : WarmState) (q : Nat) : WarmState :=
  if s.setSignaled then
    { s with
      sendFlags := Function.update s.sendFlags q
        (Function.update (s.sendFlags q) 0 { s.sendFlags q 0 with signaled := false })
      setSignaled := false }
  else s

/-- The steps of the function and of the device; polls that find nothing do not count as steps,
unless the wait ends with one. -/
inductive Action where
  | enter | post | endPost | take | leave | complete (q : Nat)
deriving DecidableEq, Repr

def act : Action → WarmState → Option WarmState
  | .enter, s =>
    match s.pc with
    | .enter q =>
      if q < c.numOfQps then some { c.askSignal s q with pc := .post q 0 }
      else some { s with pc := .done }
    | _ => none
  | .post, s =>
    match s.pc with
    | .post q warmindex =>
      if warmindex < c.warmupsession then
        some { s with
          dev := s.dev.post q ((List.range c.postList.toNat).map (s.sendFlags q))
          pc := .post q (warmindex + c.postList) }
      else none
    | _ => none
  | .endPost, s =>
    match s.pc with
    | .post q warmindex =>
      if warmindex < c.warmupsession then none
      else some { clearSignal s q with pc := .wait q warmindex }
    | _ => none
  | .take, s =>
    match s.pc, s.dev.cq with
    | .wait q warmindex, (q', _) :: rest =>
      some { s with
        dev := s.dev.pop q' () rest
        pc := if warmindex - c.postList = 0 then .enter (q + 1)
          else .wait q (warmindex - c.postList) }
    | _, _ => none
  | .leave, s =>
    match s.pc, s.dev.cq with
    | .wait q 0, [] => some { s with pc := .enter (q + 1) }
    | _, _ => none
  | .complete q, s =>
    match (s.dev.posted q)[s.dev.completed q]? with
    | some f => some { s with dev := s.dev.complete SendFlags.cqe q f }
    | none => none

def IsInit (s : WarmState) : Prop := s = c.init

def Reachable : WarmState → Prop := Transition.Reachable c.IsInit (stepOf c.act)

/-- A warm-up that leaves no trace: it ends, it does not overrun the send queue, and in the end no
completion is left, now or later, and all flags are as before. -/
structure WarmUpClean : Prop where
  bounded : ∃ n, ∀ as t, run c.act as c.init = some t → as.length ≤ n
  goesOn : ∀ s, c.Reachable s → s.pc ≠ .done → ∃ t, stepOf c.act s t
  window : ∀ s, c.Reachable s → ∀ q, (s.dev.posted q).length ≤ c.txDepth
  drained : ∀ s, c.Reachable s → s.pc = .done → s.dev.cq = []
  restored : ∀ s, c.Reachable s → s.pc = .done → ∀ q j, s.sendFlags q j = c.sendFlags j

/-- The lists posted on each QP. -/
def lists : Nat :=
  if c.postList = 1 then c.txDepth else if 1 < c.postList then 1 else 0

/-- The flags of the lists as they are posted. -/
def listFlags : Nat → SendFlags :=
  if c.postList = 1 ∧ ¬ (c.sendFlags 0).signaled then
    Function.update c.sendFlags 0 { c.sendFlags 0 with signaled := true }
  else c.sendFlags

/-- The completions of a list. -/
def signals : Nat := (List.range c.postList.toNat).countP fun j => (c.listFlags j).signaled

/-- A place in the run: how many QPs are through with their posts, how many lists the next one has,
and how many completions were taken since the last QP was left. -/
inductive Place : WarmPc → Nat → Nat → Nat → Prop
  | enter {q : Nat} (hq : q ≤ c.numOfQps) : Place (.enter q) q 0 0
  | post {q k : Nat} (hq : q < c.numOfQps) (hk : k ≤ c.lists) : Place (.post q (k * c.postList)) q k 0
  | wait {q k : Nat} (hq : q < c.numOfQps) (hk : k ≤ c.lists) (h0 : k = 0 → c.lists = 0) :
    Place (.wait q (k * c.postList)) q c.lists (c.lists - k)
  | done : Place .done c.numOfQps 0 0

/-- The flags while the function stands at a place. -/
def FlagsAt : WarmPc → (Nat → Nat → SendFlags) → Bool → Prop
  | .post q _, flags, set => flags = Function.update (fun _ => c.sendFlags) q c.listFlags ∧
      (set = true ↔ c.postList = 1 ∧ ¬ (c.sendFlags 0).signaled)
  | _, flags, set => flags = (fun _ => c.sendFlags) ∧ set = false

/-- The requests and completions at a place. -/
structure WarmCount (d : Device SendFlags Unit) (x k t : Nat) : Prop where
  fifo : d.Fifo SendFlags.cqe
  length : ∀ q, (d.posted q).length =
    (if q < x then c.lists else if q = x then k else 0) * c.postList.toNat
  count : ∀ q, ((d.posted q).countP fun f => f.cqe.isSome) =
    (if q < x then c.lists else if q = x then k else 0) * c.signals
  polled : ∑ q ∈ Finset.range c.numOfQps, (d.polled q).length = x * c.lists + t

/-- What holds between the steps. -/
structure WarmInv (s : WarmState) (x k t : Nat) : Prop where
  counts : c.WarmCount s.dev x k t
  place : c.Place s.pc x k t
  flags : c.FlagsAt s.pc s.sendFlags s.setSignaled

variable {c} {s t : WarmState} {a : Action} {x k n : Nat}

theorem warmupsession_eq (hl : 0 < c.lists) :
    0 < c.postList ∧ c.warmupsession = c.lists * c.postList := by
  unfold lists at hl ⊢
  unfold warmupsession
  by_cases h1 : c.postList = 1
  · simp only [h1, if_true]
    omega
  · simp only [h1, if_false] at hl ⊢
    by_cases h2 : 1 < c.postList
    · simp only [h2, if_true]
      omega
    · simp [h2] at hl

theorem warmupsession_nonpos (hl : c.lists = 0) (ht : 0 < c.txDepth) : c.warmupsession ≤ 0 := by
  unfold lists at hl
  unfold warmupsession
  by_cases h1 : c.postList = 1
  · simp only [h1, if_true] at hl
    omega
  · simp only [h1, if_false] at hl ⊢
    by_cases h2 : 1 < c.postList
    · simp [h2] at hl
    · omega

/-- The condition of the posting loop, by the number of lists. -/
theorem lt_warmupsession_iff (ht : 0 < c.txDepth) (hk : k ≤ c.lists) :
    (k : Int) * c.postList < c.warmupsession ↔ k < c.lists := by
  rcases Nat.eq_zero_or_pos c.lists with hz | hl
  · have hn := warmupsession_nonpos hz ht
    have hk0 : k = 0 := by omega
    rw [hk0, hz]
    simp only [Nat.cast_zero, Int.zero_mul, Nat.lt_irrefl, iff_false, not_lt]
    exact hn
  · obtain ⟨hp, he⟩ := warmupsession_eq hl
    rw [he, Int.mul_lt_mul_right hp]
    exact Int.ofNat_lt

/-- A wait begins with `warmindex` zero only where nothing was posted. -/
theorem Place.wait_zero {q : Nat} (h : c.Place (.wait q 0) x k n) :
    q = x ∧ k = c.lists ∧ q < c.numOfQps ∧ c.lists = 0 ∧ n = 0 := by
  generalize hw : (0 : Int) = w at h
  cases h with
  | @wait _ j hq hk h0 =>
    have hz : c.lists = 0 := by
      by_contra hl
      obtain ⟨hp, -⟩ := warmupsession_eq (Nat.pos_of_ne_zero hl)
      have hj : j ≠ 0 := fun hj => hl (h0 hj)
      exact Int.mul_ne_zero (by omega) (by omega) hw.symm
    exact ⟨rfl, rfl, hq, hz, by omega⟩

theorem isSome_cqe (f : SendFlags) : f.cqe.isSome = f.signaled := by
  unfold SendFlags.cqe
  cases f.signaled <;> rfl

theorem init_inv : c.WarmInv c.init 0 0 0 := by
  refine ⟨⟨Device.Fifo.empty, fun q => ?_, fun q => ?_, ?_⟩, .enter (Nat.zero_le _), rfl, rfl⟩
  · simp [init, Device.empty]
  · simp [init, Device.empty]
  · simp [init, Device.empty]

theorem askSignal_flags {q : Nat} (hf : s.sendFlags = fun _ => c.sendFlags)
    (hs : s.setSignaled = false) :
    (c.askSignal s q).sendFlags = Function.update (fun _ => c.sendFlags) q c.listFlags ∧
      ((c.askSignal s q).setSignaled = true ↔ c.postList = 1 ∧ ¬ (c.sendFlags 0).signaled) := by
  unfold askSignal listFlags
  rw [hf]
  by_cases h : c.postList = 1 ∧ ¬ (c.sendFlags 0).signaled
  · rw [if_pos h, if_pos h]
    exact ⟨rfl, fun _ => h, fun _ => rfl⟩
  · rw [if_neg h, if_neg h, Function.update_eq_self, hs]
    exact ⟨hf, fun hc => (by cases hc), fun hc => absurd hc h⟩

/-- Clearing the flag restores it. -/
theorem clearSignal_flags {q : Nat}
    (hf : s.sendFlags = Function.update (fun _ => c.sendFlags) q c.listFlags)
    (hs : s.setSignaled = true ↔ c.postList = 1 ∧ ¬ (c.sendFlags 0).signaled) :
    (clearSignal s q).sendFlags = (fun _ => c.sendFlags) ∧
      (clearSignal s q).setSignaled = false := by
  unfold clearSignal
  by_cases h : c.postList = 1 ∧ ¬ (c.sendFlags 0).signaled
  · rw [if_pos (hs.mpr h)]
    refine ⟨?_, rfl⟩
    have hfalse : (c.sendFlags 0).signaled = false := by simpa using h.2
    have hrest : { c.sendFlags 0 with signaled := false } = c.sendFlags 0 := by
      rw [← hfalse]
    simp only [hf, Function.update_self, Function.update_idem]
    rw [listFlags, if_pos h, Function.update_self, Function.update_idem]
    dsimp only
    rw [hrest, Function.update_eq_self, Function.update_eq_self]
  · have hset : ¬ s.setSignaled = true := fun h' => h (hs.mp h')
    rw [if_neg hset]
    refine ⟨?_, by simpa using hset⟩
    rw [hf, listFlags, if_neg h, Function.update_eq_self]

namespace WarmCount

variable {d : Device SendFlags Unit} {q : Nat}

theorem post (h : c.WarmCount d q k 0) {flags : Nat → SendFlags} (hf : flags = c.listFlags) :
    c.WarmCount (d.post q ((List.range c.postList.toNat).map flags)) q (k + 1) 0 := by
  refine ⟨h.fifo.post q _, fun q' => ?_, fun q' => ?_, h.polled⟩
  · have hl := h.length q'
    by_cases he : q' = q
    · subst he
      simp only [Device.post, Function.update_self, List.length_append, List.length_map,
        List.length_range, hl, Nat.lt_irrefl, if_true, if_false, Nat.succ_mul]
    · simp only [Device.post, Function.update_of_ne he, hl, he, if_false]
  · have hl := h.count q'
    by_cases he : q' = q
    · subst he
      simp only [Device.post, Function.update_self, List.countP_append, hl, Nat.lt_irrefl, if_true,
        if_false, Nat.succ_mul, hf, List.countP_map, signals]
      congr 1
      refine List.countP_congr fun j _ => ?_
      rw [Function.comp_apply, isSome_cqe]
    · simp only [Device.post, Function.update_of_ne he, hl, he, if_false]

/-- With the last completion of a QP the next one is entered. -/
theorem next (h : c.WarmCount d q c.lists c.lists) : c.WarmCount d (q + 1) 0 0 := by
  have hlists : ∀ q', (if q' < q then c.lists else if q' = q then c.lists else 0) =
      if q' < q + 1 then c.lists else if q' = q + 1 then 0 else 0 := by
    intro q'
    split_ifs <;> omega
  refine ⟨h.fifo, fun q' => ?_, fun q' => ?_, ?_⟩
  · rw [h.length, hlists]
  · rw [h.count, hlists]
  · rw [h.polled, Nat.succ_mul, Nat.add_zero]

theorem take {n : Nat} {q' : Nat} {rest : List (Nat × Unit)} (h : c.WarmCount d q c.lists n)
    (hq : q < c.numOfQps) (hcq : d.cq = (q', ()) :: rest) :
    0 < c.lists ∧ c.WarmCount (d.pop q' () rest) q c.lists (n + 1) := by
  have hposted := h.fifo.posted_of_pending hcq
  rw [h.count] at hposted
  have hlists : 0 < c.lists := by
    by_contra hz
    have hz : c.lists = 0 := by omega
    simp [hz] at hposted
  have hq' : q' < c.numOfQps := by
    by_contra hge
    rw [if_neg (by omega), if_neg (by omega), Nat.zero_mul] at hposted
    cases hposted
  refine ⟨hlists, h.fifo.pop hcq, h.length, h.count, ?_⟩
  rw [Device.sum_polled_pop hq', h.polled, Nat.add_assoc]

theorem complete (h : c.WarmCount d x k n) {f : SendFlags}
    (hf : (d.posted q)[d.completed q]? = some f) :
    c.WarmCount (d.complete SendFlags.cqe q f) x k n :=
  ⟨h.fifo.complete hf, h.length, h.count, h.polled⟩

/-- Once everything has completed and was taken, the polled completions are those of the posts. -/
theorem polled_of_drained (h : c.WarmCount d x k n) (hd : ∀ q, d.completed q = (d.posted q).length)
    (hcq : d.cq = []) : (d.polled q).length =
      (if q < x then c.lists else if q = x then k else 0) * c.signals := by
  have he := h.fifo.entries_eq (hd q)
  rw [Device.pending_eq_nil_iff.mpr hcq q, List.length_nil, Nat.add_zero, h.count] at he
  exact he

end WarmCount

/-- A step leads from a place to a place. -/
theorem WarmInv.step (ht : 0 < c.txDepth) (h : c.WarmInv s x k n) (ha : c.act a s = some t) :
    ∃ x' k' n', c.WarmInv t x' k' n' := by
  obtain ⟨hcount, hplace, hflags⟩ := h
  cases a with
  | enter =>
    simp only [act] at ha
    split at ha
    next q hpc =>
      rw [hpc] at hplace hflags
      cases hplace with
      | enter hq =>
        split at ha
        next hlt =>
          cases ha
          have hdev : (c.askSignal s x).dev = s.dev := by
            unfold askSignal
            split <;> rfl
          have hpost := Place.post (c := c) hlt (Nat.zero_le _)
          rw [Nat.cast_zero, Int.zero_mul] at hpost
          exact ⟨x, 0, 0, by simpa only [hdev] using hcount, hpost,
            askSignal_flags hflags.1 hflags.2⟩
        next hge =>
          cases ha
          obtain rfl : x = c.numOfQps := by omega
          exact ⟨_, 0, 0, hcount, .done, hflags⟩
    next => cases ha
  | post =>
    simp only [act] at ha
    split at ha
    next q w hpc =>
      rw [hpc] at hplace hflags
      simp only [Option.ite_none_right_eq_some, Option.some.injEq] at ha
      obtain ⟨hlt, rfl⟩ := ha
      cases hplace with
      | post hq hk =>
        rw [lt_warmupsession_iff ht hk] at hlt
        have hpost := Place.post (c := c) hq (Nat.succ_le_of_lt hlt)
        have hcast : ((k + 1 : Nat) : Int) * c.postList = k * c.postList + c.postList := by
          push_cast
          ring
        rw [hcast] at hpost
        refine ⟨x, k + 1, 0, hcount.post ?_, hpost, hflags⟩
        rw [hflags.1, Function.update_self]
    next => cases ha
  | endPost =>
    simp only [act] at ha
    split at ha
    next q w hpc =>
      rw [hpc] at hplace hflags
      simp only [Option.ite_none_left_eq_some, Option.some.injEq] at ha
      obtain ⟨hge, rfl⟩ := ha
      cases hplace with
      | post hq hk =>
        rw [lt_warmupsession_iff ht hk] at hge
        obtain rfl : k = c.lists := by omega
        have hdev : (clearSignal s x).dev = s.dev := by
          unfold clearSignal
          split <;> rfl
        have hwait := Place.wait (c := c) hq (le_refl _) id
        rw [Nat.sub_self] at hwait
        exact ⟨x, c.lists, 0, by simpa only [hdev] using hcount, hwait,
          clearSignal_flags hflags.1 hflags.2⟩
    next => cases ha
  | take =>
    simp only [act] at ha
    split at ha
    next q w q' u rest hpc hcq =>
      rw [hpc] at hplace hflags
      cases ha
      cases hplace with
      | @wait _ j hq hk h0 =>
        obtain ⟨hlists, hpop⟩ := hcount.take hq hcq
        obtain ⟨i, rfl⟩ := Nat.exists_eq_succ_of_ne_zero fun hz => by
          have := h0 hz
          omega
        have hcast : ((i + 1 : Nat) : Int) * c.postList - c.postList = i * c.postList := by
          push_cast
          ring
        have hp := (warmupsession_eq hlists).1
        rw [Nat.succ_eq_add_one, hcast]
        rcases Nat.eq_zero_or_pos i with rfl | hi
        · rw [Nat.cast_zero, Int.zero_mul, if_pos rfl]
          have hn : c.lists - Nat.succ 0 + 1 = c.lists := by omega
          rw [hn] at hpop
          exact ⟨x + 1, 0, 0, hpop.next, .enter hq, hflags⟩
        · rw [if_neg (Int.mul_ne_zero (by omega) (by omega))]
          have hn : c.lists - Nat.succ i + 1 = c.lists - i := by omega
          rw [hn] at hpop
          exact ⟨x, c.lists, c.lists - i, hpop, .wait hq (by omega) (by omega), hflags⟩
    next => cases ha
  | leave =>
    simp only [act] at ha
    split at ha
    next q hpc hcq =>
      rw [hpc] at hplace hflags
      cases ha
      obtain ⟨rfl, rfl, hq, hz, rfl⟩ := hplace.wait_zero
      have hnext : c.WarmCount s.dev q c.lists c.lists := by
        rw [hz] at hcount ⊢
        exact hcount
      exact ⟨q + 1, 0, 0, hnext.next, .enter hq, hflags⟩
    next => cases ha
  | complete q =>
    simp only [act] at ha
    split at ha
    next f hf =>
      cases ha
      exact ⟨x, k, n, hcount.complete hf, hplace, hflags⟩
    next => cases ha

end WarmConfig

end Perftest
