import Mathlib.Data.List.GetD
import Perftest.LatWrite

namespace Perftest

open ByteMemory

namespace LatPeer

@[simp] theorem other_other (x : LatPeer) : x.other.other = x := by
  cases x <;> rfl

theorem other_ne (x : LatPeer) : x.other ≠ x := by
  cases x <;> simp [other]

end LatPeer

namespace LatConfig

variable {c : LatConfig}

theorem sizeAt_pos {z : Nat} (hz : z < c.sizes.length) : 1 ≤ c.sizeAt z := by
  have hp := c.size_pos
  unfold sizeAt sizes at *
  cases hm : c.method with
  | regular size =>
    rw [hm] at hp hz
    have hs : size ≠ 0 := fun h => hp (by rw [h])
    obtain rfl : z = 0 := by simpa using hz
    show 1 ≤ size
    omega
  | all =>
    rw [hm] at hz
    rw [List.getD_eq_getElem _ _ hz, List.getElem_map]
    exact Nat.one_le_two_pow

theorem sizeAt_le {z : Nat} (hz : z < c.sizes.length) : c.sizeAt z ≤ c.ctxSize := by
  unfold sizeAt sizes ctxSize at *
  cases hm : c.method with
  | regular size =>
    rw [hm] at hz
    obtain rfl : z = 0 := by simpa using hz
    exact le_rfl
  | all =>
    rw [hm] at hz
    rw [List.getD_eq_getElem _ _ hz, List.getElem_map, List.getElem_range]
    have : z < 23 := by simpa using hz
    exact Nat.pow_le_pow_right (by omega) (show z + 1 ≤ 23 by omega)

theorem sizeAt_lt {y z : Nat} (hyz : y < z) (hz : z < c.sizes.length) :
    c.sizeAt y < c.sizeAt z := by
  unfold sizeAt sizes at *
  cases hm : c.method with
  | regular size =>
    rw [hm] at hz
    have : z < 1 := hz
    omega
  | all =>
    rw [hm] at hz
    dsimp only at hz ⊢
    rw [List.getD_eq_getElem _ _ hz, List.getD_eq_getElem _ _ (hyz.trans hz), List.getElem_map,
      List.getElem_map, List.getElem_range, List.getElem_range]
    exact Nat.pow_lt_pow_right (by omega) (by omega)

theorem buffSize_ge (x : LatPeer) : c.ctxSize ≤ c.buffSize x := by
  unfold buffSize
  split <;> omega

/-- The receive region of a side, as it polls it and as it publishes it. -/
theorem remoteAddr_eq (h : c.OneRegion) (x : LatPeer) :
    c.remoteAddr x =
      (c.buffers x.other).buf 0 + (c.numOfQps + c.pollBufOffset) * c.buffSize x.other := by
  have hx := h x.other
  unfold remoteAddr vaddr setUpConnectionVaddr xrcOffset pollBufOffset numOfQps
  cases hd : c.xrcOrDc with
  | true =>
    have hm : (c.buffers x.other).mrPerQp = false := by
      simpa [hd] using hx
    simp [hm, DEF_NUM_QPS]
  | false =>
    cases hm : (c.buffers x.other).mrPerQp <;> simp [DEF_NUM_QPS]

theorem pollBuf_eq (h : c.OneRegion) (x : LatPeer) (size : Nat) :
    c.pollBuf x.other size = c.remoteAddr x + size - 1 := by
  rw [remoteAddr_eq h]
  rfl

/-- The send buffer of the receiver lies below its receive region. -/
theorem postBuf_lt (h : c.OneRegion) (x : LatPeer) {z : Nat} (hz : z < c.sizes.length) :
    c.postBuf x.other (c.sizeAt z) < c.remoteAddr x := by
  have h1 := sizeAt_pos hz
  have h2 := sizeAt_le hz
  have h3 := buffSize_ge (c := c) x.other
  have h4 : 1 * c.buffSize x.other ≤ (c.numOfQps + c.pollBufOffset) * c.buffSize x.other := by
    refine Nat.mul_le_mul_right _ ?_
    unfold numOfQps DEF_NUM_QPS
    split <;> omega
  rw [remoteAddr_eq h]
  unfold postBuf
  omega

end LatConfig

/-- The counters of one call at each point of its loop. -/
def LatSide.Control (n : Nat) (a : LatSide) : LatPeer → Prop
  | .server => match a.pc with
    | .head => a.ccnt = a.scnt ∧ a.scnt ≤ n ∧
        (a.scnt = 0 ∧ a.rcnt = 0 ∨ a.rcnt + 1 = a.scnt ∨ a.scnt = n ∧ a.rcnt = n)
    | .wait => a.ccnt = a.scnt ∧ a.rcnt = a.scnt ∧ 1 ≤ a.scnt ∧ a.scnt ≤ n
    | .store => a.ccnt = a.scnt ∧ a.rcnt = a.scnt ∧ a.scnt ≤ n
    | .post => a.scnt = a.ccnt + 1 ∧ a.rcnt = a.ccnt ∧ a.scnt ≤ n
    | .poll => a.scnt ≤ n ∧
        (a.scnt = a.ccnt + 1 ∧ a.rcnt = a.ccnt ∨ a.scnt = n ∧ a.ccnt = n ∧ a.rcnt = n)
    | .done => a.scnt = 0 ∧ a.ccnt = 0 ∧ a.rcnt = 0
  | .client => match a.pc with
    | .head => a.ccnt = a.scnt ∧ a.rcnt = a.scnt ∧ a.scnt ≤ n
    | .wait => a.ccnt = a.scnt ∧ a.rcnt = a.scnt + 1 ∧ a.rcnt ≤ n
    | .store => a.ccnt = a.scnt ∧ a.rcnt = a.scnt + 1 ∧ a.rcnt ≤ n
    | .post => a.scnt = a.ccnt + 1 ∧ a.rcnt = a.scnt ∧ a.scnt ≤ n
    | .poll => a.scnt = a.ccnt + 1 ∧ a.rcnt = a.scnt ∧ a.scnt ≤ n
    | .done => a.scnt = 0 ∧ a.ccnt = 0 ∧ a.rcnt = 0

/-- A write in flight that is the post number `k` of side `x`, counted from zero. -/
structure LatFlight.Ok (c : LatConfig) (x : LatPeer) (k : Nat) (f : LatFlight) : Prop where
  call : k / c.iters < c.sizes.length
  addr : f.remoteAddr = c.remoteAddr x
  length : f.length = c.sizeAt (k / c.iters)
  last : f.data (f.length - 1) = UInt8.ofNat (k % c.iters + 1)
  nodup : f.todo.Nodup
  lt : ∀ j ∈ f.todo, j < f.length
  todo : f.length - 1 ∈ f.todo

/-- What holds of one side by itself. -/
structure LatSide.Ok (c : LatConfig) (x : LatPeer) (a : LatSide) : Prop where
  control : a.Control c.iters x
  round_lt : a.pc ≠ .done → a.round < c.sizes.length
  round_done : a.pc = .done → a.round = c.sizes.length
  posts : a.posts + (if a.pc = .post then 1 else 0) = a.round * c.iters + a.scnt
  waits : a.waits + (if a.pc = .wait then 1 else 0) = a.round * c.iters + a.rcnt
  reaped : a.reaped = a.round * c.iters + a.ccnt
  queued : a.posts = a.reaped + a.sq.length + a.unacked + a.cq
  flying : a.posts = a.landed + a.sq.length + a.wire.length
  stored : a.pc = .post ∨ a.sq ≠ [] →
    a.mem (c.postBuf x (c.sizeAt a.round)) = UInt8.ofNat a.scnt
  sq_ok : ∀ w ∈ a.sq, a.pc = .poll ∧
    w = ⟨(c.buffers x).buf 0, c.sizeAt a.round, c.remoteAddr x⟩
  wire_ok : ∀ f ∈ a.wire, f.Ok c x (a.posts - 1)
  ends_eq : ∀ e ∈ a.ends, e = (c.iters, c.iters, c.iters)
  ends_length : a.ends.length = a.round

namespace LatSide

variable {c : LatConfig} {x : LatPeer} {a b : LatSide}

theorem Ok.server (h : a.Ok c .server) : a.waits ≤ a.posts ∧ a.posts ≤ a.waits + 1 := by
  have hc := h.control
  have hp := h.posts
  have hw := h.waits
  unfold Control at hc
  cases hpc : a.pc <;> simp only [hpc, if_true, if_false, reduceCtorEq] at hc hp hw <;> omega

theorem Ok.client (h : a.Ok c .client) : a.posts ≤ a.waits ∧ a.waits ≤ a.posts + 1 := by
  have hc := h.control
  have hp := h.posts
  have hw := h.waits
  unfold Control at hc
  cases hpc : a.pc <;> simp only [hpc, if_true, if_false, reduceCtorEq] at hc hp hw <;> omega

theorem Ok.init (c : LatConfig) (x : LatPeer) : LatSide.init.Ok c x := by
  have hlen : 0 < c.sizes.length := by
    unfold LatConfig.sizes
    split <;> simp
  refine ⟨?_, fun _ => hlen, nofun, by simp [LatSide.init], by simp [LatSide.init],
    by simp [LatSide.init], rfl, rfl, by simp [LatSide.init], nofun, nofun, nofun, rfl⟩
  cases x <;> simp [Control, LatSide.init]

/-- A fetched request: its number gives back the call and the counter it was posted in. -/
theorem Ok.fetch (h : a.Ok c x) (ha : a.fetch = some b) : b.Ok c x := by
  unfold LatSide.fetch at ha
  split at ha
  next => simp at ha
  next w ws hsq =>
    obtain rfl := Option.some.inj ha
    have hw : w ∈ a.sq := by
      rw [hsq]
      exact List.mem_cons_self
    obtain ⟨hpc, rfl⟩ := h.sq_ok w hw
    have hround := h.round_lt (by simp [hpc])
    have hpos := LatConfig.sizeAt_pos hround
    have hq := h.queued
    have hf := h.flying
    have hp := h.posts
    have hr := h.reaped
    rw [hsq, List.length_cons] at hq hf
    rw [if_neg (by simp [hpc])] at hp
    have hbounds : 1 ≤ a.scnt ∧ a.scnt ≤ c.iters := by
      have hc := h.control
      unfold Control at hc
      cases x <;> simp only [hpc] at hc <;> omega
    have hk : a.posts - 1 = c.iters * a.round + (a.scnt - 1) := by
      rw [Nat.mul_comm]
      omega
    have hdiv : (a.posts - 1) / c.iters = a.round := by
      rw [hk, Nat.mul_add_div (by omega), Nat.div_eq_of_lt (by omega), Nat.add_zero]
    have hmod : (a.posts - 1) % c.iters = a.scnt - 1 := by
      rw [hk, Nat.mul_add_mod, Nat.mod_eq_of_lt (by omega)]
    refine ⟨h.control, h.round_lt, h.round_done, h.posts, h.waits, h.reaped, ?_, ?_, ?_, ?_, ?_,
      h.ends_eq, h.ends_length⟩
    · show a.posts = a.reaped + ws.length + (a.unacked + 1) + a.cq
      omega
    · rw [List.length_append, List.length_singleton]
      show a.posts = a.landed + ws.length + (a.wire.length + 1)
      omega
    · intro _
      exact h.stored (.inr (by simp [hsq]))
    · intro u hu
      exact h.sq_ok u (by rw [hsq]; exact List.mem_cons_of_mem _ hu)
    · intro f hfm
      rcases List.mem_append.mp hfm with hfm | hfm
      · exact h.wire_ok f hfm
      · obtain rfl := List.mem_singleton.mp hfm
        show LatFlight.Ok c x (a.posts - 1) _
        refine ⟨hdiv ▸ hround, rfl, by rw [hdiv], ?_, List.nodup_range, ?_, ?_⟩
        · have hs := h.stored (.inr (by simp [hsq]))
          unfold LatConfig.postBuf at hs
          show a.mem ((c.buffers x).buf 0 + (c.sizeAt a.round - 1)) = _
          rw [← Nat.add_sub_assoc hpos, hs, hmod, Nat.sub_add_cancel hbounds.1]
        · intro j hj
          exact List.mem_range.mp hj
        · exact List.mem_range.mpr (Nat.sub_lt hpos Nat.one_pos)

theorem Ok.complete (h : a.Ok c x) (ha : a.complete = some b) : b.Ok c x := by
  unfold LatSide.complete at ha
  split at ha
  next hu =>
    obtain rfl := Option.some.inj ha
    refine ⟨h.control, h.round_lt, h.round_done, h.posts, h.waits, h.reaped, ?_, h.flying,
      h.stored, h.sq_ok, h.wire_ok, h.ends_eq, h.ends_length⟩
    have hq := h.queued
    show a.posts = a.reaped + a.sq.length + (a.unacked - 1) + (a.cq + 1)
    omega
  next => simp at ha

/-- A change of the memory outside the send byte. -/
theorem Ok.setMem (h : a.Ok c x) {m : Mem}
    (hm : a.round < c.sizes.length →
      m (c.postBuf x (c.sizeAt a.round)) = a.mem (c.postBuf x (c.sizeAt a.round))) :
    ({ a with mem := m } : LatSide).Ok c x := by
  refine ⟨h.control, h.round_lt, h.round_done, h.posts, h.waits, h.reaped, h.queued, h.flying,
    fun hs => ?_, h.sq_ok, h.wire_ok, h.ends_eq, h.ends_length⟩
  have hpc : a.pc ≠ .done := by
    rcases hs with hs | hs
    · have hs : a.pc = .post := hs
      simp [hs]
    · obtain ⟨w, hw⟩ := List.exists_mem_of_ne_nil _ hs
      simp [(h.sq_ok w hw).1]
  exact (hm (h.round_lt hpc)).trans (h.stored hs)

/-- A step of the loop that posts and reaps nothing and leaves the counters of the calls alone. -/
theorem Ok.setPc (h : a.Ok c x) {pc : LatPc} {r : Nat} (hsq : a.sq = [])
    (hpc : a.pc ≠ .done) (hpost : a.pc ≠ .post) (hpc' : pc ≠ .done) (hpost' : pc ≠ .post) {w : Nat}
    (hc : ({ a with rcnt := r, waits := w, pc := pc } : LatSide).Control c.iters x)
    (hw : w + (if pc = .wait then 1 else 0) = a.round * c.iters + r) :
    ({ a with rcnt := r, waits := w, pc := pc } : LatSide).Ok c x := by
  have hp := h.posts
  rw [if_neg hpost] at hp
  refine ⟨hc, fun _ => h.round_lt hpc, fun hd => absurd hd hpc', ?_, hw, h.reaped, h.queued,
    h.flying, fun hs => ?_, fun u hu => ?_, h.wire_ok, h.ends_eq, h.ends_length⟩
  · rw [if_neg hpost']
    exact hp
  · rcases hs with hs | hs
    · exact absurd hs hpost'
    · exact absurd hsq hs
  · have hu : u ∈ a.sq := hu
    simp [hsq] at hu

/-- Outside the polling of a posted request nothing is queued. -/
theorem Ok.sq_nil (h : a.Ok c x) (hpc : a.pc ≠ .poll) : a.sq = [] := by
  by_contra hne
  obtain ⟨w, hw⟩ := List.exists_mem_of_ne_nil _ hne
  exact hpc (h.sq_ok w hw).1

theorem Ok.head (h : a.Ok c x) (hpc : a.pc = .head) (ha : a.run c x = some b) : b.Ok c x := by
  have hc := h.control
  have hsq := h.sq_nil (by simp [hpc])
  have hp := h.posts
  have hw := h.waits
  have hr := h.reaped
  rw [if_neg (by simp [hpc])] at hp hw
  unfold LatSide.run at ha
  simp only [hpc] at ha
  unfold Control at hc
  simp only [hpc] at hc
  split at ha
  next hloop =>
    split at ha
    next hwait =>
      obtain rfl := Option.some.inj ha
      refine h.setPc (w := a.waits) hsq (by simp [hpc]) (by simp [hpc]) (by simp) (by simp) ?_ ?_
      · cases x with
        | server =>
          simp only [Control]
          simp only [and_true] at hwait
          omega
        | client =>
          simp only [Control]
          omega
      · rw [if_pos rfl]
        omega
    next hwait =>
      obtain rfl := Option.some.inj ha
      refine h.setPc (r := a.rcnt) (w := a.waits) hsq (by simp [hpc]) (by simp [hpc]) (by simp)
        (by simp) ?_ ?_
      · cases x with
        | server =>
          simp only [Control]
          simp only [and_true] at hwait
          omega
        | client =>
          simp only [reduceCtorEq, and_false, not_false_eq_true, and_true] at hwait
          omega
      · rw [if_neg (by simp)]
        omega
  next hloop =>
    obtain rfl := Option.some.inj ha
    have hround := h.round_lt (by simp [hpc])
    have hend : a.scnt = c.iters ∧ a.ccnt = c.iters ∧ a.rcnt = c.iters := by
      cases x <;> simp only at hc <;> omega
    have hmul : (a.round + 1) * c.iters = a.round * c.iters + c.iters := Nat.succ_mul _ _
    refine ⟨?_, ?_, ?_, ?_, ?_, ?_, h.queued, h.flying, ?_, ?_, h.wire_ok, ?_, ?_⟩
    · by_cases hnext : a.round + 1 < c.sizes.length <;> cases x <;> simp [Control, hnext]
    · intro hne
      by_contra hlt
      exact hne (if_neg hlt)
    · intro hd
      show a.round + 1 = c.sizes.length
      by_contra hne
      have hd : (if a.round + 1 < c.sizes.length then LatPc.head else .done) = .done := hd
      rw [if_pos (by omega)] at hd
      cases hd
    · show a.posts + (if (if a.round + 1 < c.sizes.length then LatPc.head else .done) = .post
        then 1 else 0) = (a.round + 1) * c.iters + 0
      rw [if_neg (by split <;> simp)]
      omega
    · show a.waits + (if (if a.round + 1 < c.sizes.length then LatPc.head else .done) = .wait
        then 1 else 0) = (a.round + 1) * c.iters + 0
      rw [if_neg (by split <;> simp)]
      omega
    · show a.reaped = (a.round + 1) * c.iters + 0
      omega
    · intro hs
      rcases hs with hs | hs
      · have hs : (if a.round + 1 < c.sizes.length then LatPc.head else .done) = .post := hs
        split at hs <;> cases hs
      · exact absurd hsq hs
    · intro u hu
      have hu : u ∈ a.sq := hu
      simp [hsq] at hu
    · intro e he
      rcases List.mem_cons.mp he with rfl | he
      · rw [hend.1, hend.2.1, hend.2.2]
      · exact h.ends_eq e he
    · rw [List.length_cons, h.ends_length]

theorem Ok.wait (h : a.Ok c x) (hpc : a.pc = .wait) (ha : a.run c x = some b) : b.Ok c x := by
  have hc := h.control
  have hw := h.waits
  rw [if_pos hpc] at hw
  unfold LatSide.run at ha
  simp only [hpc] at ha
  unfold Control at hc
  simp only [hpc] at hc
  split at ha
  next =>
    obtain rfl := Option.some.inj ha
    refine h.setPc (r := a.rcnt) (h.sq_nil (by simp [hpc])) (by simp [hpc]) (by simp [hpc])
      (by simp) (by simp) ?_ ?_
    · cases x <;> simp only [Control] <;> omega
    · rw [if_neg (by simp)]
      omega
  next => simp at ha

theorem Ok.store (h : a.Ok c x) (hpc : a.pc = .store) (ha : a.run c x = some b) : b.Ok c x := by
  have hc := h.control
  have hp := h.posts
  have hw := h.waits
  have hsq := h.sq_nil (by simp [hpc])
  rw [if_neg (by simp [hpc])] at hp hw
  unfold LatSide.run at ha
  simp only [hpc] at ha
  unfold Control at hc
  simp only [hpc] at hc
  split at ha
  next hlt =>
    obtain rfl := Option.some.inj ha
    refine ⟨?_, fun _ => h.round_lt (by simp [hpc]), nofun, ?_, ?_, h.reaped, h.queued, h.flying,
      fun _ => Function.update_self .., ?_, h.wire_ok, h.ends_eq, h.ends_length⟩
    · cases x <;> simp only [Control] <;> omega
    · rw [if_pos rfl]
      show a.posts + 1 = a.round * c.iters + (a.scnt + 1)
      omega
    · rw [if_neg (by simp)]
      exact hw
    · intro u hu
      have hu : u ∈ a.sq := hu
      simp [hsq] at hu
  next hge =>
    obtain rfl := Option.some.inj ha
    refine h.setPc (r := a.rcnt) (w := a.waits) hsq (by simp [hpc]) (by simp [hpc]) (by simp)
      (by simp) ?_ ?_
    · cases x <;> simp only [Control] <;> omega
    · rw [if_neg (by simp)]
      omega

theorem Ok.post (h : a.Ok c x) (hpc : a.pc = .post) (hl : a.landed = a.posts)
    (ha : a.run c x = some b) : b.Ok c x := by
  have hc := h.control
  have hp := h.posts
  have hw := h.waits
  have hr := h.reaped
  have hq := h.queued
  have hf := h.flying
  have hsq := h.sq_nil (by simp [hpc])
  have hwire : a.wire = [] := List.eq_nil_of_length_eq_zero (by omega)
  rw [if_pos hpc] at hp
  rw [if_neg (by simp [hpc])] at hw
  unfold LatSide.run at ha
  simp only [hpc] at ha
  unfold Control at hc
  simp only [hpc] at hc
  obtain rfl := Option.some.inj ha
  refine ⟨?_, fun _ => h.round_lt (by simp [hpc]), nofun, ?_, ?_, hr, ?_, ?_,
    fun _ => h.stored (.inl hpc), ?_, ?_, h.ends_eq, h.ends_length⟩
  · cases x <;> simp only [Control] <;> omega
  · rw [if_neg (by simp)]
    show a.posts + 1 = a.round * c.iters + a.scnt
    omega
  · rw [if_neg (by simp)]
    exact hw
  · rw [List.length_append, List.length_singleton]
    show a.posts + 1 = a.reaped + (a.sq.length + 1) + a.unacked + a.cq
    omega
  · rw [List.length_append, List.length_singleton]
    show a.posts + 1 = a.landed + (a.sq.length + 1) + a.wire.length
    omega
  · intro u hu
    have hu : u ∈ a.sq ++ [_] := hu
    rw [hsq, List.nil_append, List.mem_singleton] at hu
    exact ⟨rfl, hu⟩
  · intro f hfm
    have hfm : f ∈ a.wire := hfm
    simp [hwire] at hfm

theorem Ok.poll (h : a.Ok c x) (hpc : a.pc = .poll) (ha : a.run c x = some b) : b.Ok c x := by
  have hc := h.control
  have hp := h.posts
  have hw := h.waits
  have hr := h.reaped
  have hq := h.queued
  rw [if_neg (by simp [hpc])] at hp hw
  unfold LatSide.run at ha
  simp only [hpc] at ha
  unfold Control at hc
  simp only [hpc] at hc
  split at ha
  next hlt =>
    split at ha
    next hcq =>
      obtain rfl := Option.some.inj ha
      have hsq : a.sq = [] := by
        refine List.eq_nil_of_length_eq_zero ?_
        cases x <;> simp only at hc <;> omega
      refine ⟨?_, fun _ => h.round_lt (by simp [hpc]), nofun, ?_, ?_, ?_, ?_, h.flying, ?_, ?_,
        h.wire_ok, h.ends_eq, h.ends_length⟩
      · cases x <;> simp only [Control] <;> omega
      · rw [if_neg (by simp)]
        exact hp
      · rw [if_neg (by simp)]
        exact hw
      · show a.reaped + 1 = a.round * c.iters + (a.ccnt + 1)
        omega
      · show a.posts = a.reaped + 1 + a.sq.length + a.unacked + (a.cq - 1)
        omega
      · intro hs
        rcases hs with hs | hs
        · cases hs
        · exact absurd hsq hs
      · intro u hu
        have hu : u ∈ a.sq := hu
        simp [hsq] at hu
    next => simp at ha
  next hge =>
    obtain rfl := Option.some.inj ha
    have hsq : a.sq = [] := by
      refine List.eq_nil_of_length_eq_zero ?_
      cases x <;> simp only at hc <;> omega
    refine h.setPc (r := a.rcnt) (w := a.waits) hsq (by simp [hpc]) (by simp [hpc]) (by simp)
      (by simp) ?_ ?_
    · cases x <;> simp only [Control] <;> omega
    · rw [if_neg (by simp)]
      omega

theorem Ok.run (h : a.Ok c x) (hl : a.pc = .post → a.landed = a.posts)
    (ha : a.run c x = some b) : b.Ok c x := by
  cases hpc : a.pc with
  | head => exact h.head hpc ha
  | wait => exact h.wait hpc ha
  | store => exact h.store hpc ha
  | post => exact h.post hpc (hl hpc) ha
  | poll => exact h.poll hpc ha
  | done => simp [LatSide.run, hpc] at ha

/-- What a step of the loop changes for the peer to see. -/
theorem run_frame (ha : a.run c x = some b) : b.landed = a.landed ∧
    (b.waits = a.waits ∨ a.pc = .wait ∧ b.waits = a.waits + 1 ∧
      a.mem (c.pollBuf x (c.sizeAt a.round)) = UInt8.ofNat a.rcnt) ∧
    (b.mem = a.mem ∨ a.pc = .store ∧
      ∃ v, b.mem = Function.update a.mem (c.postBuf x (c.sizeAt a.round)) v) := by
  unfold LatSide.run at ha
  split at ha
  next hpc =>
    split at ha
    next =>
      split at ha <;> obtain rfl := Option.some.inj ha <;> exact ⟨rfl, .inl rfl, .inl rfl⟩
    next =>
      obtain rfl := Option.some.inj ha
      exact ⟨rfl, .inl rfl, .inl rfl⟩
  next hpc =>
    split at ha
    next hm =>
      obtain rfl := Option.some.inj ha
      exact ⟨rfl, .inr ⟨hpc, rfl, hm⟩, .inl rfl⟩
    next => simp at ha
  next hpc =>
    split at ha
    next =>
      obtain rfl := Option.some.inj ha
      exact ⟨rfl, .inl rfl, .inr ⟨hpc, _, rfl⟩⟩
    next =>
      obtain rfl := Option.some.inj ha
      exact ⟨rfl, .inl rfl, .inl rfl⟩
  next =>
    obtain rfl := Option.some.inj ha
    exact ⟨rfl, .inl rfl, .inl rfl⟩
  next =>
    split at ha
    next =>
      split at ha
      next =>
        obtain rfl := Option.some.inj ha
        exact ⟨rfl, .inl rfl, .inl rfl⟩
      next => simp at ha
    next =>
      obtain rfl := Option.some.inj ha
      exact ⟨rfl, .inl rfl, .inl rfl⟩
  next => simp at ha

end LatSide

/-- The joint invariant: sound sides, waits that trail the landings, and for the calls that a side
still polls in, the byte it polls counts the landed writes of that call. -/
structure LatInv (c : LatConfig) (s : LatState) : Prop where
  sides : ∀ x, (s x).Ok c x
  waits : ∀ x : LatPeer, (s x.other).waits ≤ (s x).landed
  memory : ∀ (x : LatPeer) (z : Nat), z < c.sizes.length →
    (s x.other).waits < (z + 1) * c.iters →
    (s x.other).mem (c.remoteAddr x + c.sizeAt z - 1) =
      UInt8.ofNat ((s x).landed - z * c.iters)

namespace LatInv

variable {c : LatConfig} {s t : LatState} {x : LatPeer}

theorem init (c : LatConfig) : LatInv c fun _ => .init :=
  ⟨fun x => .init c x, fun _ => le_rfl, fun x z _ _ => by simp [LatSide.init]⟩

/-- The order of the six events of a round, which leaves at most one write in flight. -/
theorem chain (h : LatInv c s) :
    (s .server).posts ≤ (s .server).waits + 1 ∧ (s .server).waits ≤ (s .client).landed ∧
      (s .client).landed ≤ (s .client).posts ∧ (s .client).posts ≤ (s .client).waits ∧
      (s .client).waits ≤ (s .server).landed ∧ (s .server).landed ≤ (s .server).posts := by
  have hs := (h.sides .server).server
  have hc := (h.sides .client).client
  have h1 := h.waits .server
  have h2 := h.waits .client
  have h3 := (h.sides .server).flying
  have h4 := (h.sides .client).flying
  exact ⟨hs.2, h2, by omega, hc.1, h1, by omega⟩

theorem posts_le (h : LatInv c s) (x : LatPeer) : (s x).posts ≤ (s x.other).waits + 1 := by
  have hc := h.chain
  cases x
  · show (s .client).posts ≤ (s .server).waits + 1
    omega
  · show (s .server).posts ≤ (s .client).waits + 1
    omega

/-- A side posts only when its own writes have all landed. -/
theorem post_landed (h : LatInv c s) (hpc : (s x).pc = .post) : (s x).landed = (s x).posts := by
  have hc := h.chain
  have hctl := (h.sides x).control
  have hp := (h.sides x).posts
  have hw := (h.sides x).waits
  unfold LatSide.Control at hctl
  cases x <;> simp only [hpc, if_true, if_false, reduceCtorEq] at hctl hp hw <;> omega

/-- A step of side `x` alone. -/
theorem update (h : LatInv c s) {a : LatSide} (ha : a.Ok c x) (hl : a.landed = (s x).landed)
    (hw : (s x).waits ≤ a.waits) (hw' : a.waits ≤ (s x.other).landed)
    (hm : ∀ z, z < c.sizes.length → a.mem (c.remoteAddr x.other + c.sizeAt z - 1) =
      (s x).mem (c.remoteAddr x.other + c.sizeAt z - 1)) :
    LatInv c (Function.update s x a) := by
  have hx : Function.update s x a x = a := Function.update_self ..
  have ho : Function.update s x a x.other = s x.other := Function.update_of_ne x.other_ne _ _
  refine ⟨fun y => ?_, fun y => ?_, fun y z hz hzw => ?_⟩
  · by_cases hy : y = x
    · subst hy
      rw [hx]
      exact ha
    · rw [Function.update_of_ne hy]
      exact h.sides y
  · by_cases hy : y = x
    · subst hy
      rw [hx, ho, hl]
      exact h.waits y
    · obtain rfl : y = x.other := by
        cases x <;> cases y <;> simp_all [LatPeer.other]
      rw [LatPeer.other_other, hx, ho]
      exact hw'
  · by_cases hy : y = x
    · subst hy
      rw [hx, hl]
      rw [ho] at hzw ⊢
      exact h.memory y z hz hzw
    · obtain rfl : y = x.other := by
        cases x <;> cases y <;> simp_all [LatPeer.other]
      rw [LatPeer.other_other, hx] at hzw ⊢
      rw [ho, hm z hz]
      have := h.memory x.other z hz
      rw [LatPeer.other_other] at this
      exact this (Nat.lt_of_le_of_lt hw hzw)

theorem ofNat_pred_ne (k : Nat) : UInt8.ofNat k ≠ UInt8.ofNat (k + 1) := by
  intro h
  have hm := congrArg UInt8.toNat h
  simp only [UInt8.toNat_ofNat'] at hm
  omega

/-- A wait that sees its value has the write of the peer in memory. -/
theorem wait_landed (h : LatInv c s) (hone : c.OneRegion) (hpc : (s x).pc = .wait)
    (hm : (s x).mem (c.pollBuf x (c.sizeAt (s x).round)) = UInt8.ofNat (s x).rcnt) :
    (s x).waits + 1 ≤ (s x.other).landed := by
  have hside := h.sides x
  have hround := hside.round_lt (by simp [hpc])
  have hw := hside.waits
  rw [if_pos hpc] at hw
  have hr : 1 ≤ (s x).rcnt ∧ (s x).rcnt ≤ c.iters := by
    have hc := hside.control
    unfold LatSide.Control at hc
    cases x <;> simp only [hpc] at hc <;> omega
  have hle := h.waits x.other
  have hmem := h.memory x.other (s x).round hround
  rw [LatPeer.other_other] at hle hmem
  have hlt : (s x).waits < ((s x).round + 1) * c.iters := by
    rw [Nat.succ_mul]
    omega
  have hpoll := LatConfig.pollBuf_eq hone x.other (c.sizeAt (s x).round)
  rw [LatPeer.other_other] at hpoll
  rw [hpoll, hmem hlt] at hm
  by_contra hnot
  have hl : (s x.other).landed = (s x).waits := by omega
  have hrc : (s x).rcnt = (s x.other).landed - (s x).round * c.iters + 1 := by omega
  rw [hrc] at hm
  exact ofNat_pred_ne _ hm

theorem run (h : LatInv c s) (hone : c.OneRegion) (ha : c.act (.run x) s = some t) :
    LatInv c t := by
  obtain ⟨a, hrun, rfl⟩ := Option.map_eq_some_iff.mp ha
  obtain ⟨hl, hw, hm⟩ := LatSide.run_frame hrun
  refine h.update ((h.sides x).run (fun hpc => h.post_landed hpc) hrun) hl ?_ ?_ ?_
  · rcases hw with hw | ⟨-, hw, -⟩ <;> omega
  · rcases hw with hw | ⟨hpc, hw, hmw⟩
    · have := h.waits x.other
      rw [LatPeer.other_other] at this
      omega
    · rw [hw]
      exact h.wait_landed hone hpc hmw
  · intro z hz
    rcases hm with hm | ⟨hpc, v, hm⟩
    · rw [hm]
    · rw [hm]
      have hround := (h.sides x).round_lt (by simp [hpc])
      have hlt := LatConfig.postBuf_lt hone x.other hround
      have hpos := LatConfig.sizeAt_pos hz
      rw [LatPeer.other_other] at hlt
      exact Function.update_of_ne (by omega) _ _

theorem fetch (h : LatInv c s) (ha : c.act (.fetch x) s = some t) : LatInv c t := by
  obtain ⟨a, hrun, rfl⟩ := Option.map_eq_some_iff.mp ha
  have hok := (h.sides x).fetch hrun
  have hle := h.waits x.other
  rw [LatPeer.other_other] at hle
  unfold LatSide.fetch at hrun
  split at hrun
  next => simp at hrun
  next =>
    obtain rfl := Option.some.inj hrun
    exact h.update hok rfl le_rfl hle fun _ _ => rfl

theorem complete (h : LatInv c s) (ha : c.act (.complete x) s = some t) : LatInv c t := by
  obtain ⟨a, hrun, rfl⟩ := Option.map_eq_some_iff.mp ha
  have hok := (h.sides x).complete hrun
  have hle := h.waits x.other
  rw [LatPeer.other_other] at hle
  unfold LatSide.complete at hrun
  split at hrun
  next =>
    obtain rfl := Option.some.inj hrun
    exact h.update hok rfl le_rfl hle fun _ _ => rfl
  next => simp at hrun

/-- The one write in flight is the last one posted, and its peer waits for it. -/
theorem flight_unique (h : LatInv c s) {f : LatFlight} {fs : List LatFlight}
    (hwire : (s x).wire = f :: fs) : fs = [] ∧ (s x).landed = (s x).posts - 1 ∧
      (s x.other).waits = (s x).posts - 1 ∧ 1 ≤ (s x).posts := by
  have hf := (h.sides x).flying
  have hp := h.posts_le x
  have hw := h.waits x
  rw [hwire, List.length_cons] at hf
  refine ⟨List.eq_nil_of_length_eq_zero (by omega), by omega, by omega, by omega⟩

/-- The byte polled in call `z` after byte `j` of a write in flight has landed. -/
theorem land_memory (h : LatInv c s) {f : LatFlight} {fs : List LatFlight} {j z : Nat}
    (hwire : (s x).wire = f :: fs) (hj : j ∈ f.todo) (hlast : j + 1 = f.length → f.todo = [j])
    (hz : z < c.sizes.length) (hzw : (s x.other).waits < (z + 1) * c.iters) :
    Function.update (s x.other).mem (f.remoteAddr + j) (f.data j)
        (c.remoteAddr x + c.sizeAt z - 1) =
      UInt8.ofNat ((if f.todo.erase j = [] then (s x).landed + 1 else (s x).landed) -
        z * c.iters) := by
  obtain ⟨-, hl, hw, h1⟩ := h.flight_unique hwire
  have hok := (h.sides x).wire_ok f (by rw [hwire]; exact List.mem_cons_self)
  have hlen := hok.length
  have hjl := hok.lt j hj
  have hpos := LatConfig.sizeAt_pos hok.call
  have hold := h.memory x z hz hzw
  have hn : 0 < c.iters := by
    by_contra hn
    have : c.iters = 0 := by omega
    rw [this, Nat.mul_zero] at hzw
    omega
  have hk := Nat.div_add_mod ((s x).posts - 1) c.iters
  have hkm := Nat.mod_lt ((s x).posts - 1) hn
  have hzk : ((s x).posts - 1) / c.iters ≤ z := by
    rw [hw] at hzw
    exact Nat.lt_succ_iff.mp ((Nat.div_lt_iff_lt_mul hn).mpr hzw)
  have hsize : f.length ≤ c.sizeAt z := by
    rw [hlen]
    rcases Nat.lt_or_eq_of_le hzk with hlt | heq
    · exact Nat.le_of_lt (LatConfig.sizeAt_lt hlt hz)
    · rw [heq]
  rw [hok.addr]
  by_cases hend : j + 1 = f.length
  · have htodo := hlast hend
    rw [htodo, List.erase_cons_head, if_pos rfl]
    rcases Nat.lt_or_eq_of_le hzk with hlt | heq
    · have hbig := LatConfig.sizeAt_lt hlt hz
      rw [Function.update_of_ne (by omega), hold]
      have hge : ((s x).posts - 1) / c.iters * c.iters + c.iters ≤ z * c.iters := by
        rw [← Nat.succ_mul]
        exact Nat.mul_le_mul_right _ hlt
      rw [Nat.mul_comm] at hk
      rw [show (s x).landed - z * c.iters = 0 by omega,
        show (s x).landed + 1 - z * c.iters = 0 by omega]
    · rw [show c.remoteAddr x + c.sizeAt z - 1 = c.remoteAddr x + j by rw [← heq]; omega,
        Function.update_self, show j = f.length - 1 by omega, hok.last]
      congr 1
      rw [← heq, hl]
      rw [Nat.mul_comm] at hk
      omega
  · have hne : f.todo.erase j ≠ [] := by
      refine List.ne_nil_of_mem (a := f.length - 1) ?_
      exact (List.mem_erase_of_ne (by omega)).mpr hok.todo
    rw [if_neg hne, Function.update_of_ne (by omega), hold]

theorem land (h : LatInv c s) (hone : c.OneRegion) {j : Nat}
    (ha : c.act (.land x j) s = some t) : LatInv c t := by
  obtain ⟨⟨a, b⟩, hab, rfl⟩ := Option.map_eq_some_iff.mp ha
  unfold LatSide.land at hab
  split at hab
  next => simp at hab
  next f fs hwire =>
    split at hab
    next hj =>
      obtain ⟨hja, hjb⟩ := Prod.mk.inj (Option.some.inj hab)
      have hfo := (h.sides x).wire_ok f (by rw [hwire]; exact List.mem_cons_self)
      obtain ⟨hfs, hl, hw, h1⟩ := h.flight_unique hwire
      have hx : Function.update (Function.update s x a) x.other b x = a := by
        rw [Function.update_of_ne x.other_ne.symm, Function.update_self]
      have ho : Function.update (Function.update s x a) x.other b x.other = b :=
        Function.update_self ..
      have hland : a.landed =
          if f.todo.erase j = [] then (s x).landed + 1 else (s x).landed := by
        rw [← hja]
        split <;> rfl
      have haok : a.Ok c x := by
        have hs := h.sides x
        have hf := hs.flying
        rw [hwire, List.length_cons] at hf
        rw [← hja]
        split
        next =>
          refine ⟨hs.control, hs.round_lt, hs.round_done, hs.posts, hs.waits, hs.reaped, hs.queued,
            ?_, hs.stored, hs.sq_ok, fun g hg => ?_, hs.ends_eq, hs.ends_length⟩
          · show (s x).posts = (s x).landed + 1 + (s x).sq.length + fs.length
            omega
          · exact hs.wire_ok g (by rw [hwire]; exact List.mem_cons_of_mem _ hg)
        next hne =>
          refine ⟨hs.control, hs.round_lt, hs.round_done, hs.posts, hs.waits, hs.reaped, hs.queued,
            ?_, hs.stored, hs.sq_ok, fun g hg => ?_, hs.ends_eq, hs.ends_length⟩
          · show (s x).posts = (s x).landed + (s x).sq.length + (fs.length + 1)
            omega
          · rcases List.mem_cons.mp hg with rfl | hg
            · refine ⟨hfo.call, hfo.addr, hfo.length, hfo.last, hfo.nodup.erase j,
                fun i hi => hfo.lt i (List.mem_of_mem_erase hi), ?_⟩
              refine (List.mem_erase_of_ne ?_).mpr hfo.todo
              intro he
              have he : f.length - 1 = j := he
              have hlt := hfo.lt j hj.1
              have := hj.2 (by omega)
              rw [this, List.erase_cons_head] at hne
              exact hne rfl
            · exact hs.wire_ok g (by rw [hwire]; exact List.mem_cons_of_mem _ hg)
      have hbok : b.Ok c x.other := by
        rw [← hjb]
        refine (h.sides x.other).setMem fun hround => ?_
        have hlt := LatConfig.postBuf_lt hone x hround
        rw [hfo.addr]
        exact Function.update_of_ne (by omega) _ _
      have hbw : b.waits = (s x.other).waits ∧ b.landed = (s x.other).landed := by
        rw [← hjb]
        exact ⟨rfl, rfl⟩
      have haw : a.waits = (s x).waits ∧ a.mem = (s x).mem := by
        rw [← hja]
        split <;> exact ⟨rfl, rfl⟩
      refine ⟨fun y => ?_, fun y => ?_, fun y z hz hzw => ?_⟩
      · by_cases hy : y = x
        · subst hy
          rw [hx]
          exact haok
        · obtain rfl : y = x.other := by
            cases x <;> cases y <;> simp_all [LatPeer.other]
          rw [ho]
          exact hbok
      · by_cases hy : y = x
        · subst hy
          rw [hx, ho, hbw.1, hland]
          split <;> omega
        · obtain rfl : y = x.other := by
            cases x <;> cases y <;> simp_all [LatPeer.other]
          have := h.waits x.other
          rw [LatPeer.other_other] at this ⊢
          rw [hx, ho, haw.1, hbw.2]
          exact this
      · by_cases hy : y = x
        · subst hy
          rw [ho, hbw.1] at hzw
          rw [hx, ho, hland, ← hjb]
          exact h.land_memory hwire hj.1 hj.2 hz hzw
        · obtain rfl : y = x.other := by
            cases x <;> cases y <;> simp_all [LatPeer.other]
          have := h.memory x.other z hz
          rw [LatPeer.other_other] at this hzw ⊢
          rw [hx, haw.1] at hzw
          rw [hx, ho, haw.2, hbw.2]
          exact this hzw
    next => simp at hab

theorem of_reachable (hone : c.OneRegion) (h : c.Reachable s) : LatInv c s := by
  refine Transition.Reachable.invariant ?_ ?_ h
  · rintro s rfl
    exact .init c
  · intro s t hi hst
    obtain ⟨a, ha⟩ := hst
    cases a with
    | run x => exact hi.run hone ha
    | fetch x => exact hi.fetch ha
    | complete x => exact hi.complete ha
    | land x j => exact hi.land hone ha

end LatInv

end Perftest
