import Perftest.CtxInit

namespace Perftest

open Custody InitResource

def InitResource.rank : InitResource → Nat
  | .sendChannel | .recvChannel => 0
  | .pd => 1
  | .td => 2
  | .parentDomain => 3
  | .dek _ => 4
  | .mkey _ => 5
  | .dmah => 6
  | .ibvBuf _ => 7
  | .mr _ | .nullMr _ => 8
  | .sendCq | .recvCq => 9
  | .xrcFile | .xrcDomain => 10
  | .srq => 11
  | .qp _ => 12

theorem InitResource.rank_lt_of_needs (s r : InitResource) (h : needs s r = true) :
    rank r < rank s := by
  have hall : ∀ r ∈ s.madeFrom, rank r < rank s := by
    cases s <;> simp [madeFrom, rank]
  exact hall r (of_decide_eq_true h)

namespace InitParams

variable (p : InitParams) (m : InitMarks)

/-- What is held at the labels of `ctx_init`. -/
def heldPd : List InitResource := p.atCompChannel ++ [.pd]

def heldTd : List InitResource := p.heldPd ++ if p.noLock then [.td] else []

def heldPad : List InitResource :=
  p.heldTd ++ if p.needParentDomain then [.parentDomain] else []

def heldDeks : List InitResource :=
  p.heldPad ++ if p.aesXts then (List.range m.dekIndex).map .dek else []

def heldKeys : List InitResource :=
  p.heldDeks m ++ if p.aesXts || p.sigOffload then (List.range m.mkeyIndex).map .mkey else []

def heldDmah : List InitResource := p.heldKeys m ++ if m.dmah then [.dmah] else []

def mrBlock (i : Nat) : List InitResource :=
  p.ibvBufs i ++ (.mr i :: if p.useNullMr then [.nullMr i] else [])

def heldMrs (n : Nat) : List InitResource := p.heldDmah m ++ (List.range n).flatMap p.mrBlock

def mrCount : Nat := if p.mrPerQp then p.numOfQps else 1

def heldCqs : List InitResource :=
  p.heldMrs m p.mrCount ++ (.sendCq :: if p.needRecvCq then [.recvCq] else [])

def heldSrqs : List InitResource :=
  p.heldCqs m ++ if p.useXrc then [.xrcFile, .xrcDomain, .srq]
    else if p.useSrq && p.receives then [.srq] else []

def heldQps : List InitResource := p.heldSrqs m ++ (List.range m.qpIndex).map .qp

variable {p m}

theorem below_ite {c : Prop} [Decidable c] {k : Nat} {block : List InitResource}
    (h : Below rank k block) : Below rank k (if c then block else []) := by
  split
  next => exact h
  next => exact Below.nil k

theorem below_map {f : Nat → InitResource} {j k : Nat} (hf : ∀ i, rank (f i) = j) (hjk : j < k)
    (n : Nat) : Below rank k ((List.range n).map f) := by
  intro s hs
  obtain ⟨i, -, rfl⟩ := List.mem_map.mp hs
  rw [hf]
  exact hjk

theorem below_atCompChannel : Below rank 1 p.atCompChannel := by
  apply below_ite
  intro s hs
  rcases List.mem_pair.mp hs with rfl | rfl <;> exact Nat.zero_lt_one

theorem below_singleton {r : InitResource} {k : Nat} (h : rank r < k) : Below rank k [r] := by
  intro s hs
  rw [List.mem_singleton.mp hs]
  exact h

theorem below_heldPd : Below rank 2 p.heldPd :=
  below_atCompChannel.append (by omega) (below_singleton (by decide))

theorem below_heldTd : Below rank 3 p.heldTd :=
  below_heldPd.append (by omega) (below_ite (below_singleton (by decide)))

theorem below_heldPad : Below rank 4 p.heldPad :=
  below_heldTd.append (by omega) (below_ite (below_singleton (by decide)))

theorem below_heldDeks : Below rank 5 (p.heldDeks m) :=
  below_heldPad.append (by omega) (below_ite (below_map (j := 4) (fun _ => rfl) (by omega) _))

theorem below_heldKeys : Below rank 6 (p.heldKeys m) :=
  below_heldDeks.append (by omega) (below_ite (below_map (j := 5) (fun _ => rfl) (by omega) _))

theorem below_heldDmah : Below rank 7 (p.heldDmah m) :=
  below_heldKeys.append (by omega) (below_ite (below_singleton (by decide)))

theorem mem_ibvBufs {r : InitResource} {i : Nat} (h : r ∈ p.ibvBufs i) : r = .ibvBuf i := by
  rw [ibvBufs] at h
  split at h
  next => exact List.mem_singleton.mp h
  next => cases h

theorem mem_mrBlock {r : InitResource} {i : Nat} (h : r ∈ p.mrBlock i) :
    r = .ibvBuf i ∨ r = .mr i ∨ r = .nullMr i := by
  rw [mrBlock] at h
  rcases List.mem_append.mp h with h | h
  · exact .inl (mem_ibvBufs h)
  · rcases List.mem_cons.mp h with h | h
    · exact .inr (.inl h)
    · split at h
      next => exact .inr (.inr (List.mem_singleton.mp h))
      next => cases h

theorem below_mrBlocks (l : List Nat) : Below rank 9 (l.flatMap p.mrBlock) := by
  intro s hs
  obtain ⟨i, -, hi⟩ := List.mem_flatMap.mp hs
  rcases mem_mrBlock hi with rfl | rfl | rfl <;> rw [rank] <;> omega

theorem below_heldMrs (n : Nat) : Below rank 9 (p.heldMrs m n) :=
  below_heldDmah.append (by omega) (below_mrBlocks _)

theorem below_heldCqs : Below rank 10 (p.heldCqs m) := by
  apply (below_heldMrs _).append (by omega)
  intro s hs
  rcases List.mem_cons.mp hs with rfl | h
  · rw [rank]; omega
  · split at h
    next => rw [List.mem_singleton.mp h, rank]; omega
    next => cases h

theorem below_heldSrqs : Below rank 12 (p.heldSrqs m) := by
  apply below_heldCqs.append (by omega)
  split
  next =>
    intro s hs
    simp only [List.mem_cons, List.not_mem_nil, or_false] at hs
    rcases hs with rfl | rfl | rfl <;> rw [rank] <;> omega
  next => exact below_ite (below_singleton (by decide))

theorem nodup_atCompChannel : p.atCompChannel.Nodup := by
  unfold atCompChannel
  split <;> decide

theorem run_atCompChannel : run needs p.atCompChannel (p.atCompChannel.map .release) = some [] := by
  apply (Below.nil 0).run_release rank_lt_of_needs ?_ nodup_atCompChannel
  intro r hr
  exact Nat.lt_one_iff.mp (below_atCompChannel r hr)

/-- A level of one resource, or of none. -/
theorem unwind_single {c : Prop} [Decidable c] {held rest : List InitResource} {r : InitResource}
    (h : Below rank (rank r) held) (hrest : run needs held (rest.map .release) = some []) :
    run needs (held ++ if c then [r] else [])
      (((if c then [r] else []) ++ rest).map .release) = some [] := by
  refine h.unwind rank_lt_of_needs (fun s hs => ?_) ?_ hrest
  · split at hs
    next => rw [List.mem_singleton.mp hs]
    next => cases hs
  · split
    next => exact List.nodup_singleton r
    next => exact List.nodup_nil

/-- A level with one resource for each index. -/
theorem unwind_indexed {c : Prop} [Decidable c] {held rest : List InitResource}
    {f : Nat → InitResource} {k n : Nat} (hk : ∀ i, rank (f i) = k) (hf : Function.Injective f)
    (h : Below rank k held) (hrest : run needs held (rest.map .release) = some []) :
    run needs (held ++ if c then (List.range n).map f else [])
      (((if c then (List.range n).map f else []) ++ rest).map .release) = some [] := by
  refine h.unwind rank_lt_of_needs (fun s hs => ?_) ?_ hrest
  · split at hs
    next =>
      obtain ⟨i, -, rfl⟩ := List.mem_map.mp hs
      exact hk i
    next => cases hs
  · split
    next => exact List.nodup_range.map hf
    next => exact List.nodup_nil

theorem run_atPd : run needs p.heldPd (p.atPd.map .release) = some [] := by
  have h : Below rank 1 p.atCompChannel := below_atCompChannel
  have hpd : ∀ r ∈ [InitResource.pd], rank r = 1 := by
    intro r hr
    rw [List.mem_singleton.mp hr]
    rfl
  exact h.unwind rank_lt_of_needs hpd (List.nodup_singleton _) run_atCompChannel

section Domains

variable (htd : m.td = p.noLock)

include htd

theorem run_atTd : run needs p.heldTd ((p.atTd m).map .release) = some [] := by
  rw [heldTd, atTd, htd, Bool.and_self]
  exact unwind_single (r := .td) below_heldPd run_atPd

variable (hpad : m.pad = p.needParentDomain)

include hpad

theorem run_atPad : run needs p.heldPad
    (((if m.pad then [parentDomain] else []) ++ p.atTd m).map .release) = some [] := by
  rw [heldPad, hpad]
  exact unwind_single (r := parentDomain) below_heldTd (run_atTd htd)

theorem run_atDek : run needs (p.heldDeks m) ((p.atDek m).map .release) = some [] := by
  apply unwind_indexed (k := 4) (fun _ => rfl) (fun _ _ h => InitResource.dek.inj h) below_heldPad
  exact run_atPad htd hpad

theorem run_atMkey : run needs (p.heldKeys m) ((p.atMkey m).map .release) = some [] := by
  have hsplit : p.atMkey m = (if p.aesXts || p.sigOffload then (List.range m.mkeyIndex).map .mkey
      else []) ++ p.atDek m := by
    unfold atMkey
    cases ha : p.aesXts with
    | true => simp [p.aes_alone ha]
    | false => simp
  rw [hsplit]
  apply unwind_indexed (k := 5) (fun _ => rfl) (fun _ _ h => InitResource.mkey.inj h) below_heldDeks
  exact run_atDek htd hpad

theorem run_atDmah : run needs (p.heldDmah m) ((p.atDmah m).map .release) = some [] :=
  unwind_single (r := .dmah) below_heldKeys (run_atMkey htd hpad)

end Domains

theorem not_needs_mr {s : InitResource} (i : Nat) (hs : rank s ≤ 8) : needs s (.mr i) = false := by
  cases h : needs s (.mr i) with
  | false => rfl
  | true => exact absurd (rank_lt_of_needs s (.mr i) h) (by rw [rank]; omega)

theorem not_needs_ibvBuf {s : InitResource} {i : Nat} (hs : s ≠ .mr i) :
    needs s (.ibvBuf i) = false := by
  cases s <;> simp_all [needs, madeFrom, eq_comm]

/-- The first `n` MRs go with their buffers, when there is no null MR. -/
theorem run_deregMrs {held : List InitResource} (hnull : p.useNullMr = false)
    (h : Below rank 7 held) {l : List Nat} (hl : l.Nodup) :
    run needs (held ++ l.flatMap p.mrBlock)
      ((l.flatMap fun i => .mr i :: p.ibvBufs i).map .release) = some held := by
  induction l with
  | nil => rw [List.flatMap_nil, List.append_nil, List.flatMap_nil, List.map_nil, run]
  | cons i l ih =>
    have hblock : p.mrBlock i = p.ibvBufs i ++ [.mr i] := by rw [mrBlock, hnull]; rfl
    have hrest : Below rank 9 (l.flatMap p.mrBlock) := below_mrBlocks l
    have hmr : ∀ s ∈ l.flatMap p.mrBlock, s ≠ .mr i := by
      intro s hs heq
      obtain ⟨j, hj, hsj⟩ := List.mem_flatMap.mp hs
      rw [heq] at hsj
      rcases mem_mrBlock hsj with h | h | h
      · cases h
      · exact (List.nodup_cons.mp hl).1 (InitResource.mr.inj h ▸ hj)
      · cases h
    have hbufs : Below rank 8 (p.ibvBufs i) := below_ite (below_singleton (by rw [rank]; omega))
    rw [List.flatMap_cons, hblock, List.flatMap_cons, List.map_append, List.map_cons,
      List.append_assoc, ← List.append_assoc held, List.singleton_append]
    have hdrop : step needs ((held ++ p.ibvBufs i) ++ .mr i :: l.flatMap p.mrBlock)
        (.release (.mr i)) = some ((held ++ p.ibvBufs i) ++ l.flatMap p.mrBlock) := by
      have hlow : Below rank 8 (held ++ p.ibvBufs i) := h.append (by omega) hbufs
      apply step_release
      · intro hmem
        exact absurd (hlow _ hmem) (by rw [rank]; omega)
      · intro s hs
        apply not_needs_mr
        rcases List.mem_append.mp hs with hs | hs
        · exact Nat.le_of_lt (hlow s hs)
        · rcases List.mem_cons.mp hs with rfl | hs
          · rw [rank]
          · exact Nat.le_of_lt_succ (hrest s hs)
    rw [List.cons_append, run, hdrop, Option.bind_some]
    have hfree : run needs ((held ++ p.ibvBufs i) ++ l.flatMap p.mrBlock)
        ((p.ibvBufs i).map .release) = some (held ++ l.flatMap p.mrBlock) := by
      unfold ibvBufs
      split
      next =>
        rw [List.append_assoc, List.singleton_append, List.map_singleton, run, step_release]
        · rfl
        · intro hmem
          exact absurd (h _ hmem) (by rw [rank]; omega)
        · intro s hs
          apply not_needs_ibvBuf
          rcases List.mem_append.mp hs with hs | hs
          · intro heq
            exact absurd (h s hs) (by rw [heq, rank]; omega)
          · rcases List.mem_cons.mp hs with rfl | hs
            · exact InitResource.noConfusion
            · exact hmr s hs
      next => rw [List.append_nil, List.map_nil, run]
    rw [run_append hfree]
    exact ih (List.nodup_cons.mp hl).2

section Queues

variable (htd : m.td = p.noLock) (hpad : m.pad = p.needParentDomain)
  (hnull : p.useNullMr = false)

include htd hpad hnull

theorem run_mrs (n : Nat) : run needs (p.heldMrs m n)
    ((p.deregMrs n ++ p.atDmah m).map .release) = some [] := by
  rw [List.map_append, heldMrs, deregMrs,
    run_append (run_deregMrs hnull below_heldDmah List.nodup_range)]
  exact run_atDmah htd hpad

theorem run_atMr : run needs (p.heldMrs m p.mrCount) ((p.atMr m).map .release) = some [] :=
  run_mrs htd hpad hnull p.mrCount

theorem run_atCqs : run needs (p.heldCqs m) ((p.atCqs m).map .release) = some [] := by
  have hneed : (hasRecvComp p.verb || (p.connectionType = .dc && !p.dctOnly)) = p.needRecvCq := by
    rw [needRecvCq, Bool.or_comm]
  rw [heldCqs, atCqs, hneed, ← List.cons_append]
  refine (below_heldMrs _).unwind rank_lt_of_needs (fun r hr => ?_) ?_ (run_atMr htd hpad hnull)
  · rcases List.mem_cons.mp hr with rfl | hr
    · rfl
    · split at hr
      next => rw [List.mem_singleton.mp hr]; rfl
      next => cases hr
  · split <;> decide

variable (hxrc : p.useXrc = false)

include hxrc

theorem run_atXrcd : run needs (p.heldCqs m) ((p.atXrcd m).map .release) = some [] := by
  rw [atXrcd, atXrcSrq, hxrc]
  exact run_atCqs htd hpad hnull

theorem run_atQps : run needs (p.heldQps m) ((p.atQps m).map .release) = some [] := by
  have hsrq : run needs (p.heldSrqs m)
      (((if p.useSrq && p.receives then [srq] else []) ++ p.atXrcd m).map .release) = some [] := by
    rw [heldSrqs, hxrc]
    have hcqs : Below rank 11 (p.heldCqs m) := fun s hs => Nat.lt_succ_of_lt (below_heldCqs s hs)
    exact unwind_single (r := srq) hcqs (run_atXrcd htd hpad hnull hxrc)
  refine below_heldSrqs.unwind rank_lt_of_needs (fun r hr => ?_) ?_ hsrq
  · obtain ⟨i, -, rfl⟩ := List.mem_map.mp hr
    rfl
  · exact List.nodup_range.map fun _ _ h => InitResource.qp.inj h

end Queues

end InitParams

end Perftest
