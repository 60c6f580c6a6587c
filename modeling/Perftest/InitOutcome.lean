import Perftest.InitFailures
import Perftest.Parser

namespace Perftest

open Custody InitResource

namespace InitParams

variable {p : InitParams} {m : InitMarks} {failing : InitStep} {x y : InitState} {l : InitLabel}
  {held : List InitResource}

section Registered

variable (htd : m.td = p.noLock) (hpad : m.pad = p.needParentDomain)

/-- How `create_single_mr` fails for MR `i`: either it holds no more than before, or it leaves the
MR behind. -/
def MrFailed (p : InitParams) (failing : InitStep) (m : InitMarks) (i : Nat) (x : InitState) :
    Prop :=
  (Stands (p.heldMrs m i) m x ∧ (p.cleansUp failing ↔ i = 0 ∨ p.useNullMr = false)) ∨
    ∃ held, Stands held m x ∧ .mr i ∈ held ∧ ¬ p.cleansUp failing

theorem mrFailed_of_leak {i : Nat} (h : Stands held m x) (hmem : .mr i ∈ held)
    (hc : p.cleansUp failing ↔ False) : p.MrFailed failing m i x :=
  .inr ⟨held, h, hmem, hc.mp⟩

theorem heldMrs_succ (i : Nat) : p.heldMrs m (i + 1) = p.heldMrs m i ++ p.mrBlock i := by
  rw [heldMrs, heldMrs, List.range_succ, List.flatMap_append, List.append_assoc,
    List.flatMap_singleton]

theorem mem_heldMrs {r : InitResource} {i : Nat} (hr : 7 ≤ rank r) (h : r ∈ p.heldMrs m i) :
    ∃ j < i, r = .ibvBuf j ∨ r = .mr j ∨ r = .nullMr j := by
  rcases List.mem_append.mp h with h | h
  · exact absurd h (below_heldDmah.not_mem hr)
  · obtain ⟨j, hj, hm⟩ := List.mem_flatMap.mp h
    exact ⟨j, List.mem_range.mp hj, mem_mrBlock hm⟩

theorem ibvBuf_not_mem_heldMrs (i : Nat) : .ibvBuf i ∉ p.heldMrs m i := by
  intro hmem
  obtain ⟨j, hj, h | h | h⟩ := mem_heldMrs (by rw [rank]) hmem
  · have hij : i = j := InitResource.ibvBuf.inj h
    omega
  · cases h
  · cases h

theorem mr_not_mem_heldMrs (i : Nat) : .mr i ∉ p.heldMrs m i ++ p.ibvBufs i := by
  intro hmem
  rcases List.mem_append.mp hmem with h | h
  · obtain ⟨j, hj, h | h | h⟩ := mem_heldMrs (by rw [rank]; omega) h
    · cases h
    · have hij : i = j := InitResource.mr.inj h
      omega
    · cases h
  · cases mem_ibvBufs h

theorem nullMr_not_mem_heldMrs (i : Nat) : .nullMr i ∉ p.heldMrs m i ++ p.ibvBufs i ++ [.mr i] := by
  intro hmem
  rcases List.mem_append.mp hmem with h | h
  · rcases List.mem_append.mp h with h | h
    · obtain ⟨j, hj, h | h | h⟩ := mem_heldMrs (by rw [rank]; omega) h
      · cases h
      · cases h
      · have hij : i = j := InitResource.nullMr.inj h
        omega
    · cases mem_ibvBufs h
  · cases List.mem_singleton.mp h

/-- A buffer that was allocated last is given back. -/
theorem Stands.releaseBuf {i : Nat} (h : Stands (held ++ p.ibvBufs i) m x)
    (hmem : .ibvBuf i ∉ held) (hmr : .mr i ∉ held ++ p.ibvBufs i) :
    Stands held m (x.release (p.ibvBufs i)) := by
  refine ⟨?_, h.marks⟩
  rw [InitState.release, run_append h.run]
  apply run_release_block
  · intro r hr
    rwa [mem_ibvBufs hr]
  · unfold ibvBufs
    split
    next => exact List.nodup_singleton _
    next => exact List.nodup_nil
  · intro r hr s hs
    rw [mem_ibvBufs hr]
    apply not_needs_ibvBuf
    intro heq
    exact hmr (heq ▸ hs)

theorem createSingleMr_ends {i : Nat} (h : Stands (p.heldMrs m i) m x) :
    Ends (p.createSingleMr failing i x) (Stands (p.heldMrs m (i + 1)) m)
      (p.MrFailed failing m i) := by
  have hbuf := ibvBuf_not_mem_heldMrs (p := p) (m := m) i
  have hmr := mr_not_mem_heldMrs (p := p) (m := m) i
  unfold createSingleMr
  apply Ends.bind (Q := Stands (p.heldMrs m i) m)
  · apply ends_given
    · intro _
      apply ends_check h
      intro hf
      exact .inl ⟨h, by rw [hf]; rfl⟩
    · intro _
      exact h
  intro x hx
  apply Ends.bind (Q := Stands (p.heldMrs m i ++ p.ibvBufs i) m)
  · unfold allocBuffer ibvBufs
    split
    next =>
      apply ends_make
      · intro _
        exact hx.acquire hbuf
      · intro hf
        exact .inl ⟨hx, by rw [hf]; rfl⟩
    next =>
      rw [List.append_nil]
      apply ends_check hx
      intro hf
      exact .inl ⟨hx, by rw [hf]; rfl⟩
  intro x hx
  apply Ends.bind (Q := Stands (p.heldMrs m i ++ p.ibvBufs i ++ [.mr i]) m)
  · apply Ends.mapError (E := fun y => y = x ∧ failing = .make (.mr i))
    · apply ends_make
      · intro _
        exact hx.acquire hmr
      · intro hf
        exact ⟨rfl, hf⟩
    · rintro y ⟨rfl, hf⟩
      exact .inl ⟨hx.releaseBuf hbuf hmr, by rw [hf]; rfl⟩
  intro x hx
  have hmem : .mr i ∈ p.heldMrs m i ++ p.ibvBufs i ++ [.mr i] :=
    List.mem_append_right _ (List.mem_singleton_self _)
  apply Ends.bind (Q := Stands (p.heldMrs m (i + 1)) m)
  · rw [heldMrs_succ, mrBlock]
    apply ends_given
    · intro hnull
      rw [hnull]
      apply ends_make
      · intro _
        have := hx.acquire (nullMr_not_mem_heldMrs i)
        simpa using this
      · intro hf
        exact mrFailed_of_leak hx hmem (by rw [hf]; rfl)
    · intro hnull
      rw [hnull]
      simpa using hx
  intro x hx
  apply ends_given
  · intro _
    apply ends_check hx
    intro hf
    refine mrFailed_of_leak hx ?_ (by rw [hf]; rfl)
    rw [heldMrs_succ, mrBlock]
    exact List.mem_append_right _ (List.mem_append_right _ List.mem_cons_self)
  · intro _
    exact hx

include htd hpad

theorem createMrs_ends (n : Nat) {i : Nat} (hi : 1 ≤ i) (h : Stands (p.heldMrs m i) m x) :
    Ends (p.createMrs failing n i x) (Stands (p.heldMrs m (i + n)) m)
      fun y => p.Settled failing (.dmah, y) := by
  induction n generalizing i x with
  | zero => exact h
  | succ n ih =>
    unfold createMrs
    apply Ends.bind (Q := Stands (p.heldMrs m (i + 1)) m)
    · apply (createSingleMr_ends h).mapError
      intro y hy
      have htrace : ∀ {held'}, Stands held' m y →
          (p.unwind .dmah (y.release (p.deregMrs i))).trace =
            y.trace ++ (p.deregMrs i ++ p.atDmah m).map .release := by
        intro held' hy
        rw [unwind, InitState.release, InitState.release, hy.marks, List.map_append,
          ← List.append_assoc]
        rfl
      rcases hy with ⟨hy, hc⟩ | ⟨held, hy, hmem, hc⟩
      · cases hnull : p.useNullMr with
        | false =>
          exact settled_clean hy.run (run_mrs htd hpad hnull i) (htrace hy) (hc.mpr (.inr hnull))
        | true =>
          refine settled_leak hy.run (nullMr_mem_heldMrs hi hnull)
            (nullMr_not_mem_mrs htd hpad 0 i) (htrace hy) fun hclean => ?_
          rcases hc.mp hclean with h0 | h0
          · omega
          · rw [hnull] at h0
            cases h0
      · exact settled_leak hy.run hmem (mr_not_mem_mrs htd hpad (le_refl i)) (htrace hy) hc
    · intro y hy
      have hrest := ih (Nat.le_add_right_of_le hi) hy
      rwa [Nat.add_assoc, Nat.add_comm 1 n] at hrest

theorem createMr_ends (h : Stands (p.heldDmah m) m x) :
    Ends (p.createMr failing x) (Stands (p.heldMrs m p.mrCount) m)
      fun y => p.Settled failing (.dmah, y) := by
  have hzero : p.heldMrs m 0 = p.heldDmah m := List.append_nil _
  unfold createMr
  apply Ends.bind (Q := Stands (p.heldDmah m) m)
  · apply ends_given
    · intro _
      apply ends_check h
      intro hf
      exact h.settled (run_atDmah htd hpad) (by rw [hf]; trivial)
    · intro _
      exact h
  intro x hx
  rw [← hzero] at hx
  apply Ends.bind (Q := Stands (p.heldMrs m 1) m)
  · have hsingle : Ends (p.createSingleMr failing 0 x) _ _ := createSingleMr_ends hx
    cases hm : p.createSingleMr failing 0 x with
    | ok y =>
      rw [hm] at hsingle
      exact hsingle
    | error y =>
      rw [hm] at hsingle
      rcases hsingle with ⟨hy, hc⟩ | ⟨held, hy, hmem, hc⟩
      · rw [hzero] at hy
        exact hy.settled (run_atDmah htd hpad) (hc.mpr (.inl rfl))
      · refine settled_leak hy.run hmem ((below_atDmah htd hpad).not_mem ?_) ?_ hc
        · rw [rank]; omega
        · rw [unwind, InitState.release, hy.marks]
          rfl
  intro y hy
  have hpos := p.qps_pos
  apply ends_given
  · intro hmr
    have hrest : Ends (p.createMrs failing (p.numOfQps - 1) 1 y) _ _ :=
      createMrs_ends htd hpad (p.numOfQps - 1) (le_refl 1) hy
    rw [show p.mrCount = 1 + (p.numOfQps - 1) by rw [mrCount, hmr, if_pos rfl]; omega]
    exact hrest
  · intro hmr
    rwa [show p.mrCount = 1 by rw [mrCount, hmr]; rfl]

theorem createCqs_ends (h : Stands (p.heldMrs m p.mrCount) m x) :
    Ends (p.createCqs failing x) (Stands (p.heldCqs m) m)
      fun y => p.Settled failing (.mr, y) := by
  have hfresh := below_heldMrs (p := p) (m := m) p.mrCount
  unfold createCqs
  apply Ends.bind (Q := Stands (p.heldMrs m p.mrCount ++ [.sendCq]) m)
  · apply ends_make
    · intro _
      exact h.acquire (hfresh.not_mem (by rw [rank]))
    · intro hf
      cases hnull : p.useNullMr with
      | false => exact h.settled (run_atMr htd hpad hnull) (by rw [hf]; exact hnull)
      | true =>
        refine h.leaks (nullMr_mem_heldMrs mrCount_pos hnull) ?_
          (by rw [hf]; simp [cleansUp, hnull])
        exact nullMr_not_mem_mrs htd hpad 0 p.mrCount
  intro x hx
  unfold heldCqs
  apply ends_given
  · intro hneed
    rw [hneed]
    apply ends_make
    · intro _
      have hrecv := hx.acquire (r := .recvCq) (fun hmem => by
        rcases List.mem_append.mp hmem with hmem | hmem
        · exact hfresh.not_mem (by rw [rank]) hmem
        · cases List.mem_singleton.mp hmem)
      simpa using hrecv
    · intro hf
      refine hx.leaks (List.mem_append_right _ (List.mem_singleton_self _)) ?_
        (by rw [hf]; exact id)
      exact (below_mrs htd hpad p.mrCount).not_mem (by rw [rank])
  · intro hneed
    rw [hneed]
    exact hx

theorem ctxXrcdCreate_ends (h : Stands (p.heldCqs m) m x) :
    Ends (ctxXrcdCreate failing x) (Stands (p.heldCqs m ++ [.xrcFile, .xrcDomain]) m)
      fun y => p.Settled failing (.cqs, y) := by
  have hfresh := below_heldCqs (p := p) (m := m)
  have hsettled : ∀ {y}, Stands (p.heldCqs m) m y →
      (p.cleansUp failing ↔ p.useNullMr = false) → p.Settled failing (.cqs, y) := by
    intro y hy hc
    cases hnull : p.useNullMr with
    | false => exact hy.settled (run_atCqs htd hpad hnull) (hc.mpr hnull)
    | true =>
      refine hy.leaks (nullMr_mem_heldCqs hnull) (nullMr_not_mem_atCqs htd hpad 0) ?_
      rw [hc, hnull]
      exact Bool.noConfusion
  unfold ctxXrcdCreate
  apply Ends.bind (Q := Stands (p.heldCqs m ++ [.xrcFile]) m)
  · apply ends_make
    · intro _
      exact h.acquire (hfresh.not_mem (by rw [rank]))
    · intro hf
      exact hsettled h (by rw [hf]; rfl)
  intro x hx
  apply Ends.mapError (E := fun y => y = x ∧ failing = .make .xrcDomain)
  · apply ends_make
    · intro _
      have hdomain := hx.acquire (r := .xrcDomain) (fun hmem => by
        rcases List.mem_append.mp hmem with hmem | hmem
        · exact hfresh.not_mem (by rw [rank]) hmem
        · cases List.mem_singleton.mp hmem)
      simpa using hdomain
    · intro hf
      exact ⟨rfl, hf⟩
  · rintro y ⟨rfl, hf⟩
    refine hsettled ⟨?_, hx.marks⟩ (by rw [hf]; rfl)
    rw [InitState.release, run_append hx.run]
    have hfile : ∀ r ∈ [InitResource.xrcFile], rank r = 10 := by
      intro r hr
      rw [List.mem_singleton.mp hr]
      rfl
    exact hfresh.run_release rank_lt_of_needs hfile (List.nodup_singleton _)

theorem createSrqs_ends (h : Stands (p.heldCqs m) m x) :
    Ends (p.createSrqs failing x) (Stands (p.heldSrqs m) m) (p.Settled failing) := by
  have hfresh : .srq ∉ p.heldCqs m := below_heldCqs.not_mem (by rw [rank]; omega)
  have hplain : ∀ {y : InitState} {l : InitLabel}, p.useXrc = false → failing = .make .srq →
      p.releasesFrom m l = p.atCqs m → Stands (p.heldCqs m) m y → p.Settled failing (l, y) := by
    intro y l hxrc hf hl hy
    cases hnull : p.useNullMr with
    | false =>
      refine hy.settled ?_ (by rw [hf]; exact ⟨hxrc, hnull⟩)
      rw [hl]
      exact run_atCqs htd hpad hnull
    | true =>
      refine hy.leaks (nullMr_mem_heldCqs hnull) ?_ (by rw [hf]; simp [cleansUp, hnull])
      rw [hl]
      exact nullMr_not_mem_atCqs htd hpad 0
  unfold createSrqs heldSrqs
  cases hxrc : p.useXrc with
  | true =>
    have hdc : (p.connectionType = .dc) = False := by
      rw [(p.xrc_srq hxrc).1]
      exact eq_false (by decide)
    apply Ends.bind (Q := Stands (p.heldCqs m ++ [.xrcFile, .xrcDomain, .srq]) m)
    · rw [given, if_pos rfl, createXrc]
      apply Ends.bind (Q := Stands (p.heldCqs m ++ [.xrcFile, .xrcDomain]) m)
      · apply ends_orGoto
        exact ctxXrcdCreate_ends htd hpad h
      · intro y hy
        have hnew : .srq ∉ p.heldCqs m ++ [.xrcFile, .xrcDomain] := by
          intro hmem
          rcases List.mem_append.mp hmem with hmem | hmem
          · exact hfresh hmem
          · simp at hmem
        apply ends_orGoto
        apply ends_make
        · intro _
          have hsrq := hy.acquire hnew
          simpa using hsrq
        · intro hf
          refine hy.foreign (r := .srq) hnew ?_ (by rw [hf]; simp [cleansUp, hxrc])
          rw [releasesFrom, atXrcd, atXrcSrq, hxrc]
          exact List.mem_append_right _ List.mem_cons_self
    · intro y hy
      apply Ends.bind (Q := Stands (p.heldCqs m ++ [.xrcFile, .xrcDomain, .srq]) m)
      · exact ends_given_false (by simp [hdc]) hy
      · intro z hz
        exact ends_given_false (by simp) hz
  | false =>
    have hx : p.atXrcSrq m = p.atCqs m := by rw [atXrcSrq, hxrc]; rfl
    have hx' : p.atXrcd m = p.atCqs m := by rw [atXrcd, hxrc, hx]; rfl
    apply Ends.bind (Q := Stands (p.heldCqs m) m)
    · exact h
    intro y hy
    by_cases hdc : p.connectionType = .dc
    · apply Ends.bind (Q := Stands (p.heldCqs m ++ if p.useSrq && p.receives then [srq] else []) m)
      · apply ends_given
        · intro hc
          have hc' : (p.useSrq && p.receives) = true := by simpa [hdc] using hc
          rw [hc']
          apply ends_orGoto
          apply ends_make
          · intro _
            exact hy.acquire hfresh
          · intro hf
            exact hplain hxrc hf hx hy
        · intro hc
          have hc' : (p.useSrq && p.receives) = false := by simpa [hdc] using hc
          rw [hc']
          simpa using hy
      · intro z hz
        exact ends_given_false (by simp [hdc]) hz
    · apply Ends.bind (Q := Stands (p.heldCqs m) m)
      · exact ends_given_false (by simp [hdc]) hy
      intro z hz
      apply ends_given
      · intro hc
        have hc' : (p.useSrq && p.receives) = true := by simpa [hdc] using hc
        rw [hc']
        apply ends_orGoto
        apply ends_make
        · intro _
          exact hz.acquire hfresh
        · intro hf
          exact hplain hxrc hf hx' hz
      · intro hc
        have hc' : (p.useSrq && p.receives) = false := by simpa [hdc] using hc
        rw [hc']
        simpa using hz

/-- The marks while the QPs are made. -/
def qpMarks (m : InitMarks) (q : Nat) : InitMarks := { m with qpIndex := q }

omit htd hpad in
/-- With XRC the domain is closed in front of its SRQ, or the SRQ is destroyed twice. -/
theorem atQps_not_returned (hxrc : p.useXrc = true) (hsrq : srq ∈ held) (hd : held.Nodup) :
    run needs held ((p.atQps m).map .release) ≠ some [] := by
  intro hb
  have hsplit : p.atQps m = ((List.range m.qpIndex).map .qp ++
      if p.useSrq && p.receives then [srq] else []) ++ xrcDomain :: srq :: p.atCqs m := by
    rw [atQps, atXrcd, atXrcSrq, hxrc, List.append_assoc]
    rfl
  rw [hsplit] at hb
  have hfront := mem_of_run_release_needs hb hsrq (by decide)
  have hnodup := (perm_of_run_release hb).nodup_iff.mpr hd
  exact (List.nodup_append.mp hnodup).2.2 srq hfront srq
    (List.mem_cons_of_mem _ List.mem_cons_self) rfl

theorem nullMr_not_mem_atQps (i : Nat) : .nullMr i ∉ p.atQps m := by
  intro hmem
  rcases List.mem_append.mp hmem with h | h
  · simp at h
  · rcases List.mem_append.mp h with h | h
    · split at h <;> simp at h
    · rcases List.mem_append.mp h with h | h
      · split at h <;> simp at h
      · rcases List.mem_append.mp h with h | h
        · split at h <;> simp at h
        · exact nullMr_not_mem_atCqs htd hpad i h

theorem qp_not_mem_atQps {q : Nat} (hq : m.qpIndex ≤ q) : .qp q ∉ p.atQps m := by
  intro hmem
  rcases List.mem_append.mp hmem with h | h
  · obtain ⟨i, hi, heq⟩ := List.mem_map.mp h
    have hlt : i < m.qpIndex := List.mem_range.mp hi
    have hiq : i = q := InitResource.qp.inj heq
    omega
  · rcases List.mem_append.mp h with h | h
    · split at h <;> simp at h
    · exact (below_atXrcd htd hpad).not_mem (by rw [rank]) h

/-- The creation of a QP failed. -/
theorem qp_settled {q : Nat} (h : Stands (p.heldQps m) m x) (hf : failing = .make (.qp q)) :
    p.Settled failing (.qps, x) := by
  have hnullMem : p.useNullMr = true → .nullMr 0 ∈ p.heldQps m := fun hnull =>
    List.mem_append_left _ (List.mem_append_left _ (nullMr_mem_heldCqs hnull))
  cases hnull : p.useNullMr with
  | true =>
    exact h.leaks (hnullMem hnull) (nullMr_not_mem_atQps htd hpad 0)
      (by rw [hf]; simp [cleansUp, hnull])
  | false =>
    cases hxrc : p.useXrc with
    | false => exact h.settled (run_atQps htd hpad hnull hxrc) (by rw [hf]; exact ⟨hxrc, hnull⟩)
    | true =>
      refine iff_of_false (fun hb => ?_) (by rw [hf]; simp [cleansUp, hxrc])
      rw [AllReturned, unwind, InitState.release, h.marks, run_append h.run] at hb
      refine atQps_not_returned hxrc ?_ (nodup_of_run List.nodup_nil h.run) hb
      rw [heldQps, heldSrqs, hxrc]
      simp

theorem createQps_ends (n : Nat) {q : Nat}
    (h : Stands (p.heldQps (qpMarks m q)) (qpMarks m q) x) :
    Ends (p.createQps failing n x) (fun _ => True) (p.Settled failing) := by
  induction n generalizing q x with
  | zero => trivial
  | succ n ih =>
    have hq : x.qpIndex = q := congrArg InitMarks.qpIndex h.marks
    have hnew : .qp q ∉ p.heldQps (qpMarks m q) :=
      next_not_mem (fun _ _ => InitResource.qp.inj) (below_heldSrqs.not_mem (by rw [rank]))
    have hnext : p.heldQps (qpMarks m (q + 1)) = p.heldQps (qpMarks m q) ++ [.qp q] := by
      rw [heldQps, heldQps, qpMarks, qpMarks]
      simp [List.range_succ]
      rfl
    unfold createQps
    rw [hq]
    apply Ends.bind (Q := Stands (p.heldQps (qpMarks m (q + 1))) (qpMarks m q))
    · apply ends_orGoto
      apply ends_make
      · intro _
        rw [hnext]
        exact h.acquire hnew
      · exact qp_settled (m := qpMarks m q) htd hpad h
    intro y hy
    apply Ends.bind (Q := Stands (p.heldQps (qpMarks m (q + 1))) (qpMarks m q))
    · apply ends_given
      · intro _
        apply ends_orGoto
        apply ends_check hy
        intro hf
        refine hy.leaks (r := .qp q) ?_ ?_ (by rw [hf]; exact id)
        · rw [hnext]
          exact List.mem_append_right _ (List.mem_singleton_self _)
        · exact qp_not_mem_atQps (m := qpMarks m q) htd hpad (le_refl q)
      · intro _
        exact hy
    intro z hz
    exact ih ⟨hz.run, congrArg (fun m : InitMarks => { m with qpIndex := m.qpIndex + 1 }) hz.marks⟩

end Registered

theorem createDmah_ends {d k : Nat} (h : Stands (p.heldKeys (p.keyMarks d k)) (p.keyMarks d k) x) :
    Ends (given p.needDmah (createDmah failing) x)
      (fun y => ∃ m, m.td = p.noLock ∧ m.pad = p.needParentDomain ∧ m.qpIndex = 0 ∧
        Stands (p.heldDmah m) m y) (p.Settled failing) := by
  apply ends_given
  · intro _
    apply Ends.map (Q := Stands (p.heldKeys (p.keyMarks d k) ++ [.dmah]) (p.keyMarks d k))
    · apply ends_orGoto
      apply ends_make
      · intro _
        exact h.acquire (below_heldKeys.not_mem (by rw [rank]))
      · intro hf
        exact h.settled (run_atMkey rfl rfl) (by rw [hf]; trivial)
    · intro y hy
      exact ⟨{ p.keyMarks d k with dmah := true }, rfl, rfl, rfl, hy.run,
        congrArg (fun m : InitMarks => { m with dmah := true }) hy.marks⟩
  · intro _
    refine ⟨p.keyMarks d k, rfl, rfl, rfl, ?_⟩
    rw [heldDmah]
    simpa [keyMarks] using h

theorem initSteps_ends : Ends (p.initSteps failing ⟨⟨false, false, false, 0, 0, 0⟩, []⟩)
    (fun _ => True) (p.Settled failing) := by
  have hstart : Stands [] ⟨false, false, false, 0, 0, 0⟩
      ⟨⟨false, false, false, 0, 0, 0⟩, []⟩ := ⟨rfl, rfl⟩
  unfold initSteps
  apply Ends.bind (Q := Stands [] ⟨false, false, false, 0, 0, 0⟩)
  · apply ends_given
    · intro _
      apply ends_orGoto
      apply ends_check hstart
      intro hf
      exact hstart.settled rfl (by rw [hf]; trivial)
    · intro _
      exact hstart
  intro x hx
  apply (createChannels_ends hx).bind
  intro x hx
  apply Ends.bind (Q := Stands p.heldPd ⟨false, false, false, 0, 0, 0⟩)
  · apply ends_orGoto
    apply ends_make
    · intro _
      exact hx.acquire (below_atCompChannel.not_mem (by rw [rank]))
    · intro hf
      exact hx.settled run_atCompChannel (by rw [hf]; trivial)
  intro x hx
  apply (createDomains_ends hx).bind
  intro x hx
  apply (createKeys_ends hx).bind
  rintro x ⟨d, k, hx⟩
  apply Ends.bind (Q := Stands (p.heldKeys (p.keyMarks d k)) (p.keyMarks d k))
  · apply ends_orGoto
    apply ends_check hx
    intro hf
    exact hx.settled (run_atMkey rfl rfl) (by rw [hf]; trivial)
  intro x hx
  apply (createDmah_ends hx).bind
  rintro x ⟨m, htd, hpad, hqp, hx⟩
  apply Ends.bind (ends_orGoto (createMr_ends htd hpad hx))
  intro x hx
  apply Ends.bind (ends_orGoto (createCqs_ends htd hpad hx))
  intro x hx
  apply (createSrqs_ends htd hpad hx).bind
  intro x hx
  apply ends_given
  · intro _
    have hm : qpMarks m 0 = m := by rw [qpMarks, ← hqp]
    have hq : p.heldQps m = p.heldSrqs m := by
      rw [heldQps, hqp, List.range_zero, List.map_nil, List.append_nil]
    apply createQps_ends htd hpad p.numOfQps (q := 0)
    rw [hm, hq]
    exact hx
  · intro _
    trivial

/-- Where `ctx_init` fails, what it acquired is given back just when the step that failed is one of
those its labels cover. -/
theorem ctx_init_returns_all_iff (p : InitParams) (failing : InitStep)
    (h : (p.ctxInit failing).2 = false) :
    AllReturned needs (p.ctxInit failing).1.trace ↔ p.cleansUp failing := by
  have hends : Ends (p.initSteps failing ⟨⟨false, false, false, 0, 0, 0⟩, []⟩) (fun _ => True)
      (p.Settled failing) := initSteps_ends
  unfold ctxInit at h ⊢
  cases hs : p.initSteps failing ⟨⟨false, false, false, 0, 0, 0⟩, []⟩ with
  | ok x =>
    rw [hs] at h
    cases h
  | error e =>
    rw [hs] at hends
    exact hends

end InitParams

/-- An `ib_send_bw` with events. -/
def eventInit : InitParams :=
  { initPerftestParams ⟨.send, .bw, false⟩ {} with
    useEvent := true
    useOoo := false
    noLock := false
    dataEncKeysNumber := 1
    cmId := false
    qps_pos := by decide
    xrc_srq := by decide
    aes_alone := by decide }

theorem eventInit_pd_returned : (eventInit.ctxInit (.make .pd)).2 = false ∧
    AllReturned needs (eventInit.ctxInit (.make .pd)).1.trace :=
  ⟨by decide, (InitParams.ctx_init_returns_all_iff eventInit (.make .pd) (by decide)).mpr trivial⟩

/-- The send channel stays when there is no receive channel. -/
theorem eventInit_channel_leaked : ¬ ∀ (p : InitParams) (failing : InitStep),
    (p.ctxInit failing).2 = false → AllReturned needs (p.ctxInit failing).1.trace := by
  intro h
  have hall := h eventInit (.make .recvChannel) (by decide)
  revert hall
  decide

end Perftest
