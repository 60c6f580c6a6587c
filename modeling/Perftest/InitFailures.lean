import Perftest.CtxUnwind

namespace Perftest

open Custody InitResource

namespace InitParams

variable {p : InitParams} {m : InitMarks}

theorem mem_deregMrs {r : InitResource} {n : Nat} (h : r ∈ p.deregMrs n) :
    ∃ i < n, r = .mr i ∨ r = .ibvBuf i := by
  obtain ⟨i, hi, hr⟩ := List.mem_flatMap.mp h
  refine ⟨i, List.mem_range.mp hi, ?_⟩
  rcases List.mem_cons.mp hr with hr | hr
  · exact .inl hr
  · exact .inr (mem_ibvBufs hr)

theorem below_deregMrs (n : Nat) : Below rank 9 (p.deregMrs n) := by
  intro s hs
  obtain ⟨i, -, rfl | rfl⟩ := mem_deregMrs hs <;> rw [rank] <;> omega

theorem mr_not_mem_deregMrs {i n : Nat} (h : n ≤ i) : .mr i ∉ p.deregMrs n := by
  intro hmem
  obtain ⟨j, hj, heq | heq⟩ := mem_deregMrs hmem
  · have hij : i = j := InitResource.mr.inj heq
    omega
  · cases heq

theorem nullMr_not_mem_deregMrs (i n : Nat) : .nullMr i ∉ p.deregMrs n := by
  intro hmem
  obtain ⟨j, -, heq | heq⟩ := mem_deregMrs hmem
  · cases heq
  · cases heq

theorem nullMr_mem_heldMrs {n : Nat} (hn : 0 < n) (hnull : p.useNullMr = true) :
    .nullMr 0 ∈ p.heldMrs m n := by
  apply List.mem_append_right
  refine List.mem_flatMap.mpr ⟨0, List.mem_range.mpr hn, ?_⟩
  rw [mrBlock, hnull]
  exact List.mem_append_right _ (List.mem_cons_of_mem _ (List.mem_singleton_self _))

theorem mrCount_pos : 0 < p.mrCount := by
  have := p.qps_pos
  unfold mrCount
  split <;> omega

theorem nullMr_mem_heldCqs (hnull : p.useNullMr = true) : .nullMr 0 ∈ p.heldCqs m :=
  List.mem_append_left _ (nullMr_mem_heldMrs mrCount_pos hnull)

section Domains

variable (htd : m.td = p.noLock) (hpad : m.pad = p.needParentDomain)

include htd hpad

theorem below_atDmah : Below rank 7 (p.atDmah m) := by
  intro s hs
  exact below_heldDmah s ((perm_of_run_release (run_atDmah htd hpad)).mem_iff.mp hs)

theorem below_mrs (n : Nat) : Below rank 9 (p.deregMrs n ++ p.atDmah m) :=
  (below_deregMrs n).append (le_refl 9) fun s hs =>
    Nat.lt_of_lt_of_le (below_atDmah htd hpad s hs) (by omega)

theorem mr_not_mem_mrs {i n : Nat} (h : n ≤ i) : .mr i ∉ p.deregMrs n ++ p.atDmah m := by
  intro hmem
  rcases List.mem_append.mp hmem with h' | h'
  · exact mr_not_mem_deregMrs h h'
  · exact absurd (below_atDmah htd hpad _ h') (by rw [rank]; omega)

theorem nullMr_not_mem_mrs (i n : Nat) : .nullMr i ∉ p.deregMrs n ++ p.atDmah m := by
  intro hmem
  rcases List.mem_append.mp hmem with h' | h'
  · exact nullMr_not_mem_deregMrs i n h'
  · exact absurd (below_atDmah htd hpad _ h') (by rw [rank]; omega)

theorem nullMr_not_mem_atCqs (i : Nat) : .nullMr i ∉ p.atCqs m := by
  intro hmem
  rcases List.mem_cons.mp hmem with h | h
  · cases h
  · rcases List.mem_append.mp h with h | h
    · split at h <;> simp at h
    · exact nullMr_not_mem_mrs htd hpad i p.mrCount h

theorem below_atXrcd : Below rank 12 (p.atXrcd m) := by
  have hmr : Below rank 12 (p.atMr m) := fun s hs =>
    Nat.lt_of_lt_of_le (below_mrs htd hpad p.mrCount s hs) (by omega)
  unfold atXrcd atXrcSrq atCqs
  refine (below_ite (below_singleton (by decide))).append (le_refl 12)
    ((below_ite (below_singleton (by decide))).append (le_refl 12) ?_)
  rw [← List.cons_append]
  refine Below.append (fun s hs => ?_) (le_refl 12) hmr
  rcases List.mem_cons.mp hs with rfl | h
  · rw [rank]; omega
  · split at h
    next => rw [List.mem_singleton.mp h, rank]; omega
    next => cases h

end Domains

variable (p) (failing : InitStep)

/-- The clean-up from a label on is exact just when the failing step is one of those it covers. -/
def Settled (e : InitLabel × InitState) : Prop :=
  AllReturned needs (p.unwind e.1 e.2).trace ↔ p.cleansUp failing

variable {p failing} {x y : InitState} {l : InitLabel} {held rs : List InitResource}

theorem settled_clean (h : run needs [] x.trace = some held)
    (hr : run needs held (rs.map .release) = some [])
    (ht : (p.unwind l y).trace = x.trace ++ rs.map .release) (hc : p.cleansUp failing) :
    p.Settled failing (l, y) := by
  refine iff_of_true ?_ hc
  rw [AllReturned, ht, run_append h]
  exact hr

theorem settled_leak {r : InitResource} (h : run needs [] x.trace = some held) (hr : r ∈ held)
    (hrs : r ∉ rs) (ht : (p.unwind l y).trace = x.trace ++ rs.map .release)
    (hc : ¬ p.cleansUp failing) : p.Settled failing (l, y) := by
  refine iff_of_false (fun hb => hrs ?_) hc
  rw [AllReturned, ht, run_append h] at hb
  exact (perm_of_run_release hb).mem_iff.mpr hr

theorem run_acquire {r : InitResource} (h : run needs [] x.trace = some held) (hr : r ∉ held) :
    run needs [] (x.acquire r).trace = some (held ++ [r]) := by
  rw [InitState.acquire, run_append h, run, step_acquire hr]
  rfl

theorem ends_make {r : InitResource} {Q E : InitState → Prop}
    (hq : failing ≠ .make r → Q (x.acquire r)) (he : failing = .make r → E x) :
    Ends (make failing r x) Q E := by
  unfold make
  split
  next h => exact he h
  next h => exact hq h

theorem ends_check {s : InitStep} {Q E : InitState → Prop} (hq : Q x) (he : failing = s → E x) :
    Ends (check failing s x) Q E := by
  unfold check
  split
  next h => exact he h
  next => exact hq

theorem ends_orGoto {n : Except InitState InitState} {Q : InitState → Prop}
    {E : InitLabel × InitState → Prop} (h : Ends n Q fun x => E (l, x)) :
    Ends (orGoto l n) Q E := h.mapError fun _ he => he

theorem ends_given {ε : Type} {c : Bool} {part : InitState → Except ε InitState}
    {Q : InitState → Prop} {E : ε → Prop} (ht : c = true → Ends (part x) Q E)
    (hf : c = false → Q x) : Ends (given c part x) Q E := by
  cases c with
  | true => exact ht rfl
  | false => exact hf rfl

theorem ends_given_false {ε : Type} {c : Bool} {part : InitState → Except ε InitState}
    {Q : InitState → Prop} {E : ε → Prop} (hc : c = false) (h : Q x) :
    Ends (given c part x) Q E := by
  rw [hc]
  exact h

/-- The state of `ctx_init` between two of its parts. -/
structure Stands (held : List InitResource) (m : InitMarks) (x : InitState) : Prop where
  run : Custody.run needs [] x.trace = some held
  marks : x.toInitMarks = m

theorem Stands.acquire {r : InitResource} (h : Stands held m x) (hr : r ∉ held) :
    Stands (held ++ [r]) m (x.acquire r) := ⟨run_acquire h.run hr, h.marks⟩

/-- The failure of a step behind which everything that is held is released. -/
theorem Stands.settled (h : Stands held m x)
    (hr : Custody.run needs held ((p.releasesFrom m l).map .release) = some [])
    (hc : p.cleansUp failing) : p.Settled failing (l, x) :=
  settled_clean h.run hr (by rw [unwind, InitState.release, h.marks]) hc

/-- The failure of a step behind which a resource stays. -/
theorem Stands.leaks {r : InitResource} (h : Stands held m x) (hr : r ∈ held)
    (hrs : r ∉ p.releasesFrom m l) (hc : ¬ p.cleansUp failing) : p.Settled failing (l, x) :=
  settled_leak h.run hr hrs (by rw [unwind, InitState.release, h.marks]) hc

/-- The failure of a step behind which something is released that is not held. -/
theorem Stands.foreign {r : InitResource} (h : Stands held m x) (hr : r ∉ held)
    (hrs : r ∈ p.releasesFrom m l) (hc : ¬ p.cleansUp failing) : p.Settled failing (l, x) := by
  refine iff_of_false (fun hb => hr ?_) hc
  rw [AllReturned, unwind, InitState.release, h.marks, run_append h.run] at hb
  exact (perm_of_run_release hb).mem_iff.mp hrs

theorem createChannels_ends (h : Stands [] ⟨false, false, false, 0, 0, 0⟩ x) :
    Ends (p.createChannels failing x)
      (Stands p.atCompChannel ⟨false, false, false, 0, 0, 0⟩) (p.Settled failing) := by
  unfold createChannels
  apply ends_given
  · intro hev
    rw [atCompChannel, hev]
    apply Ends.bind (Q := Stands [sendChannel] ⟨false, false, false, 0, 0, 0⟩)
    · apply ends_orGoto
      apply ends_make
      · intro _
        exact h.acquire List.not_mem_nil
      · intro hf
        exact h.settled rfl (by rw [hf]; trivial)
    · intro y hy
      apply ends_orGoto
      apply ends_make
      · intro _
        exact hy.acquire (by decide)
      · intro hf
        have hnone : ∀ r : InitResource, r ∉ ([] : List InitResource) := fun _ => List.not_mem_nil
        refine settled_leak hy.run (List.mem_singleton_self _) (hnone _) rfl ?_
        rw [hf]
        exact id
  · intro hev
    rw [atCompChannel, hev]
    exact h

theorem createDomains_ends (h : Stands p.heldPd ⟨false, false, false, 0, 0, 0⟩ x) :
    Ends (p.createDomains failing x)
      (Stands p.heldPad ⟨p.noLock, p.needParentDomain, false, 0, 0, 0⟩) (p.Settled failing) := by
  apply ends_given
  · intro hneed
    apply Ends.bind (Q := Stands p.heldTd ⟨p.noLock, false, false, 0, 0, 0⟩)
    · apply ends_given
      · intro hlock
        rw [heldTd, hlock]
        apply Ends.map (Q := Stands (p.heldPd ++ [.td]) ⟨false, false, false, 0, 0, 0⟩)
        · apply ends_orGoto
          apply ends_make
          · intro _
            exact h.acquire (below_heldPd.not_mem (le_refl 2))
          · intro hf
            exact h.settled run_atPd (by rw [hf]; trivial)
        · intro y hy
          exact ⟨hy.run, congrArg (fun m : InitMarks => { m with td := true }) hy.marks⟩
      · intro hlock
        rw [heldTd, hlock]
        simpa using h
    intro y hy
    apply Ends.map (Q := Stands (p.heldTd ++ [.parentDomain]) ⟨p.noLock, false, false, 0, 0, 0⟩)
    · apply ends_orGoto
      apply ends_make
      · intro _
        exact hy.acquire (below_heldTd.not_mem (le_refl 3))
      · intro hf
        exact hy.settled (run_atTd rfl) (by rw [hf]; trivial)
    · intro z hz
      rw [heldPad, hneed]
      exact ⟨hz.run, congrArg (fun m : InitMarks => { m with pad := true }) hz.marks⟩
  · intro hneed
    have hlock : p.noLock = false := (Bool.or_eq_false_iff.mp hneed).1
    rw [heldPad, heldTd, hneed, hlock]
    simpa using h

/-- The marks while the keys are made. -/
def keyMarks (p : InitParams) (d k : Nat) : InitMarks :=
  ⟨p.noLock, p.needParentDomain, false, d, k, 0⟩

/-- The next of the resources that are numbered from the start is none that is held. -/
theorem next_not_mem {f : Nat → InitResource} (hf : Function.Injective f) {n : Nat}
    {held : List InitResource} (h : f n ∉ held) : f n ∉ held ++ (List.range n).map f := by
  intro hmem
  rcases List.mem_append.mp hmem with hmem | hmem
  · exact h hmem
  · obtain ⟨i, hi, heq⟩ := List.mem_map.mp hmem
    rw [hf heq] at hi
    exact Nat.lt_irrefl _ (List.mem_range.mp hi)

theorem createDeks_ends (haes : p.aesXts = true) (n : Nat) {d : Nat}
    (h : Stands (p.heldDeks (p.keyMarks d 0)) (p.keyMarks d 0) x) :
    Ends (createDeks failing n x)
      (Stands (p.heldDeks (p.keyMarks (d + n) 0)) (p.keyMarks (d + n) 0)) (p.Settled failing) := by
  induction n generalizing d x with
  | zero => exact h
  | succ n ih =>
    have hd : x.dekIndex = d := congrArg InitMarks.dekIndex h.marks
    have hclean := run_atDek (p := p) (m := p.keyMarks d 0) rfl rfl
    have hfresh : .dek d ∉ p.heldDeks (p.keyMarks d 0) := by
      rw [heldDeks, haes]
      exact next_not_mem (fun _ _ => InitResource.dek.inj) (below_heldPad.not_mem (le_refl 4))
    unfold createDeks
    rw [hd]
    apply Ends.bind (Q := Stands (p.heldDeks (p.keyMarks d 0)) (p.keyMarks d 0))
    · apply ends_orGoto
      apply ends_check h
      intro hf
      exact h.settled hclean (by rw [hf]; trivial)
    intro y hy
    rw [show y.dekIndex = d from congrArg InitMarks.dekIndex hy.marks]
    apply Ends.bind (Q := Stands (p.heldDeks (p.keyMarks (d + 1) 0)) (p.keyMarks d 0))
    · apply ends_orGoto
      apply ends_make
      · intro _
        have hnext : p.heldDeks (p.keyMarks (d + 1) 0) =
            p.heldDeks (p.keyMarks d 0) ++ [.dek d] := by
          rw [heldDeks, heldDeks, haes, keyMarks, keyMarks]
          simp [List.range_succ]
        rw [hnext]
        exact hy.acquire hfresh
      · intro hf
        exact hy.settled hclean (by rw [hf]; trivial)
    intro z hz
    have hz' : Stands (p.heldDeks (p.keyMarks (d + 1) 0)) (p.keyMarks (d + 1) 0)
        { z with dekIndex := z.dekIndex + 1 } :=
      ⟨hz.run, congrArg (fun m : InitMarks => { m with dekIndex := m.dekIndex + 1 }) hz.marks⟩
    have := ih hz'
    rwa [Nat.add_assoc, Nat.add_comm 1 n] at this

theorem createMkeys_ends (hkeys : (p.aesXts || p.sigOffload) = true) (n : Nat) {d k : Nat}
    (h : Stands (p.heldKeys (p.keyMarks d k)) (p.keyMarks d k) x) :
    Ends (createMkeys failing n x)
      (Stands (p.heldKeys (p.keyMarks d (k + n))) (p.keyMarks d (k + n))) (p.Settled failing) := by
  induction n generalizing k x with
  | zero => exact h
  | succ n ih =>
    have hk : x.mkeyIndex = k := congrArg InitMarks.mkeyIndex h.marks
    have hfresh : .mkey k ∉ p.heldKeys (p.keyMarks d k) := by
      rw [heldKeys, hkeys]
      exact next_not_mem (fun _ _ => InitResource.mkey.inj) (below_heldDeks.not_mem (le_refl 5))
    unfold createMkeys
    rw [hk]
    apply Ends.bind (Q := Stands (p.heldKeys (p.keyMarks d (k + 1))) (p.keyMarks d k))
    · apply ends_orGoto
      apply ends_make
      · intro _
        have hnext : p.heldKeys (p.keyMarks d (k + 1)) =
            p.heldKeys (p.keyMarks d k) ++ [.mkey k] := by
          rw [heldKeys, heldKeys, hkeys, heldDeks, heldDeks, keyMarks, keyMarks]
          simp [List.range_succ]
        rw [hnext]
        exact h.acquire hfresh
      · intro hf
        exact h.settled (run_atMkey rfl rfl) (by rw [hf]; trivial)
    intro z hz
    have hz' : Stands (p.heldKeys (p.keyMarks d (k + 1))) (p.keyMarks d (k + 1))
        { z with mkeyIndex := z.mkeyIndex + 1 } :=
      ⟨hz.run, congrArg (fun m : InitMarks => { m with mkeyIndex := m.mkeyIndex + 1 }) hz.marks⟩
    have := ih hz'
    rwa [Nat.add_assoc, Nat.add_comm 1 n] at this

/-- The keys stand for some numbers of DEKs and of mkeys. -/
def KeysMade (p : InitParams) (x : InitState) : Prop :=
  ∃ d k, Stands (p.heldKeys (p.keyMarks d k)) (p.keyMarks d k) x

theorem createKeys_ends (h : Stands p.heldPad (p.keyMarks 0 0) x) :
    Ends (p.createKeys failing x) p.KeysMade (p.Settled failing) := by
  apply Ends.bind (Q := fun y => p.KeysMade y ∧
    (p.sigOffload = true → Stands (p.heldKeys (p.keyMarks 0 0)) (p.keyMarks 0 0) y))
  · apply ends_given
    · intro haes
      have hstart : Stands (p.heldDeks (p.keyMarks 0 0)) (p.keyMarks 0 0) x := by
        rw [heldDeks, haes]
        simpa [keyMarks] using h
      apply (createDeks_ends haes p.dataEncKeysNumber hstart).bind
      intro y hy
      have hy' : Stands (p.heldKeys (p.keyMarks (0 + p.dataEncKeysNumber) 0))
          (p.keyMarks (0 + p.dataEncKeysNumber) 0) y := by
        rw [heldKeys, haes]
        simpa [keyMarks] using hy
      apply (createMkeys_ends (by rw [haes]; rfl) p.numOfQps hy').mono
      intro z hz
      refine ⟨⟨_, _, hz⟩, fun hsig => ?_⟩
      rw [p.aes_alone haes] at hsig
      cases hsig
    · intro haes
      have hstart : Stands (p.heldKeys (p.keyMarks 0 0)) (p.keyMarks 0 0) x := by
        rw [heldKeys, heldDeks, haes]
        simpa [keyMarks] using h
      exact ⟨⟨0, 0, hstart⟩, fun _ => hstart⟩
  · intro y hy
    apply ends_given
    · intro hsig
      have hstart := hy.2 hsig
      apply Ends.bind (Q := Stands (p.heldKeys (p.keyMarks 0 0)) (p.keyMarks 0 0))
      · apply ends_orGoto
        apply ends_check hstart
        intro hf
        exact hstart.settled (run_atMkey rfl rfl) (by rw [hf]; trivial)
      · intro z hz
        apply (createMkeys_ends (by rw [hsig, Bool.or_true]) p.numOfQps hz).mono
        intro w hw
        exact ⟨_, _, hw⟩
    · intro _
      exact hy.1

end InitParams

end Perftest
