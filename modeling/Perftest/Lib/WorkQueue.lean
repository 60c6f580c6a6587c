import Mathlib.Algebra.BigOperators.Intervals
import Mathlib.Data.List.Basic
import Mathlib.Tactic

namespace WorkQueue

/-- One queue's counter moves, and so does the total over the queues. -/
theorem sum_update_add (f : Nat → Nat) {q n : Nat} (hq : q < n) (x : Nat) :
    ∑ i ∈ Finset.range n, Function.update f q (f q + x) i = ∑ i ∈ Finset.range n, f i + x := by
  have hm := Finset.mem_range.mpr hq
  rw [Finset.sum_update_of_mem hm, Finset.sum_eq_add_sum_sdiff_singleton_of_mem hm f]
  omega

/-- The same over some of the queues. -/
theorem sum_filter_update_add (f : Nat → Nat) (P : Nat → Prop) [DecidablePred P] {q n : Nat}
    (hq : q < n) (x : Nat) :
    ∑ i ∈ (Finset.range n).filter P, Function.update f q (f q + x) i =
      ∑ i ∈ (Finset.range n).filter P, f i + if P q then x else 0 := by
  rw [Finset.sum_filter, Finset.sum_filter]
  by_cases hp : P q
  · rw [if_pos hp, ← sum_update_add _ hq]
    refine Finset.sum_congr rfl fun i _ => ?_
    by_cases hi : i = q
    · subst hi
      simp [hp]
    · simp [hi]
  · rw [if_neg hp, Nat.add_zero]
    refine Finset.sum_congr rfl fun i _ => ?_
    by_cases hi : i = q
    · subst hi
      rw [if_neg hp, if_neg hp]
    · rw [Function.update_of_ne hi]

theorem eq_of_sum_ge {f : Nat → Nat} {n b : Nat} (hle : ∀ q < n, f q ≤ b)
    (hs : b * n ≤ ∑ i ∈ Finset.range n, f i) {q : Nat} (hq : q < n) : f q = b := by
  by_contra hne
  have hlt := Finset.sum_lt_sum (fun i hi => hle i (Finset.mem_range.mp hi))
    ⟨q, Finset.mem_range.mpr hq, lt_of_le_of_ne (hle q hq) hne⟩
  rw [Finset.sum_const, Finset.card_range, smul_eq_mul, Nat.mul_comm] at hlt
  omega

/-- The requests of one kind in a prefix carry the first labels. -/
theorem prefix_labelled {ρ : Type} {l p : List ρ} {sel : ρ → Bool} {label : Nat → ρ} {n : Nat}
    (hl : l.filter sel = (List.range n).map label) (hp : p <+: l) :
    p.countP sel ≤ n ∧ p.filter sel = (List.range (p.countP sel)).map label := by
  have hp' : p.filter sel <+: (List.range n).map label := hl ▸ hp.filter sel
  have hlen : (p.filter sel).length = p.countP sel := List.countP_eq_length_filter.symm
  have hle : p.countP sel ≤ n := by
    have := hp'.length_le
    rw [hlen] at this
    simpa using this
  refine ⟨hle, ?_⟩
  have ht := List.prefix_iff_eq_take.mp hp'
  rw [hlen, ← List.map_take, List.take_range, Nat.min_eq_left hle] at ht
  exact ht

/-- Of requests whose completions come from one kind only, as many leave one as the labels say. -/
theorem countP_labelled {ρ κ : Type} {cqe : ρ → Option κ} {l : List ρ} {sel : ρ → Bool}
    {label : Nat → ρ} {n : Nat} (hsel : ∀ r, (cqe r).isSome = true → sel r = true)
    (hl : l.filter sel = (List.range n).map label) :
    (l.countP fun r => (cqe r).isSome) =
      (List.range n).countP fun k => (cqe (label k)).isSome := by
  have hm := congrArg (List.countP fun r => (cqe r).isSome) hl
  rw [List.countP_map, List.countP_filter] at hm
  refine (List.countP_congr fun r _ => ?_).trans hm
  have := hsel r
  cases hr : (cqe r).isSome <;> simp_all

/-- How many requests `n` completions retire: all up to the `n`-th that leaves one. -/
def retired {ρ κ : Type} (cqe : ρ → Option κ) : List ρ → Nat → Nat
  | _, 0 => 0
  | [], _ + 1 => 0
  | r :: rs, n + 1 => retired cqe rs (if (cqe r).isSome then n else n + 1) + 1

theorem countP_take_retired {ρ κ : Type} {cqe : ρ → Option κ} {l : List ρ} {n : Nat}
    (hn : n ≤ l.countP fun r => (cqe r).isSome) :
    (l.take (retired cqe l n)).countP (fun r => (cqe r).isSome) = n := by
  induction l generalizing n with
  | nil =>
    rw [List.countP_nil, Nat.le_zero] at hn
    rw [hn, List.take_nil, List.countP_nil]
  | cons r l ih =>
    cases n with
    | zero => rw [retired, List.take_zero, List.countP_nil]
    | succ n =>
      rw [List.countP_cons] at hn
      rw [retired, List.take_succ_cons, List.countP_cons]
      cases hr : (cqe r).isSome with
      | true =>
        rw [hr, if_pos rfl] at hn
        rw [if_pos rfl, if_pos rfl, ih (Nat.le_of_succ_le_succ hn)]
      | false =>
        rw [hr, if_neg Bool.false_ne_true] at hn
        rw [if_neg Bool.false_ne_true, if_neg Bool.false_ne_true, ih hn]

/-- All completions of a queue retire it up to the last request that leaves one. -/
theorem retired_all {ρ κ : Type} {cqe : ρ → Option κ} {l t : List ρ} {r : ρ}
    (hr : (cqe r).isSome = true) (ht : ∀ x ∈ t, (cqe x).isSome = false) :
    retired cqe (l ++ r :: t) ((l ++ r :: t).countP fun x => (cqe x).isSome) = l.length + 1 := by
  have htail : t.countP (fun x => (cqe x).isSome) = 0 :=
    List.countP_eq_zero.mpr fun x hx => by simp [ht x hx]
  induction l with
  | nil =>
    rw [List.nil_append, List.countP_cons, hr, if_pos rfl, htail, retired, hr, if_pos rfl]
    cases t <;> rfl
  | cons x l ih =>
    rw [List.cons_append, List.countP_cons]
    cases hx : (cqe x).isSome with
    | true => rw [if_pos rfl, retired, hx, if_pos rfl, ih, List.length_cons]
    | false =>
      rw [if_neg Bool.false_ne_true, Nat.add_zero, List.length_cons, ← ih]
      have hpos : 0 < (l ++ r :: t).countP fun x => (cqe x).isSome := by
        rw [List.countP_append, List.countP_cons, hr, if_pos rfl]
        omega
      obtain ⟨n, hn⟩ := Nat.exists_eq_add_of_lt hpos
      rw [hn, Nat.zero_add, retired, hx, if_neg Bool.false_ne_true]

/-- Work queues numbered by `Nat` with one completion queue: the requests posted to each queue, how
many of them have completed, the entries of the completion queue, and the history of the entries
already polled. -/
structure Device (ρ κ : Type) where
  posted : Nat → List ρ
  completed : Nat → Nat
  cq : List (Nat × κ)
  polled : Nat → List κ

namespace Device

variable {ρ κ : Type} {d : Device ρ κ} {cqe : ρ → Option κ} {q : Nat}

def empty : Device ρ κ := ⟨fun _ => [], fun _ => 0, [], fun _ => []⟩

def post (d : Device ρ κ) (q : Nat) (rs : List ρ) : Device ρ κ :=
  { d with posted := Function.update d.posted q (d.posted q ++ rs) }

/-- The next request of queue `q`, here `r`, completes; `cqe` says which entry it leaves. -/
def complete (cqe : ρ → Option κ) (d : Device ρ κ) (q : Nat) (r : ρ) : Device ρ κ :=
  { d with
    completed := Function.update d.completed q (d.completed q + 1)
    cq := d.cq ++ ((cqe r).map fun k => (q, k)).toList }

/-- The first entry of the completion queue is polled. -/
def pop (d : Device ρ κ) (q : Nat) (k : κ) (rest : List (Nat × κ)) : Device ρ κ :=
  { d with
    cq := rest
    polled := Function.update d.polled q (d.polled q ++ [k]) }

/-- The entries of queue `q` that wait in the completion queue. -/
def pending (d : Device ρ κ) (q : Nat) : List κ :=
  d.cq.filterMap fun e => if e.1 = q then some e.2 else none

/-- The requests of queue `q` that have completed. -/
def done (d : Device ρ κ) (q : Nat) : List ρ := (d.posted q).take (d.completed q)

/-- Completions arrive in post order: what was polled and what is pending are together the entries
of the completed requests. -/
structure Fifo (cqe : ρ → Option κ) (d : Device ρ κ) : Prop where
  bound : ∀ q, d.completed q ≤ (d.posted q).length
  order : ∀ q, d.polled q ++ d.pending q = (d.done q).filterMap cqe

theorem Fifo.empty : Fifo cqe (empty : Device ρ κ) :=
  ⟨fun _ => le_refl _, fun _ => rfl⟩

theorem done_post (h : Fifo cqe d) (rs : List ρ) (q' : Nat) : (d.post q rs).done q' = d.done q' := by
  by_cases hq : q' = q
  · subst hq
    simp [done, post, List.take_append_of_le_length (h.bound q')]
  · simp [done, post, hq]

theorem Fifo.post (h : Fifo cqe d) (q : Nat) (rs : List ρ) : Fifo cqe (d.post q rs) := by
  refine ⟨fun q' => ?_, fun q' => ?_⟩
  · by_cases hq : q' = q
    · subst hq
      have := h.bound q'
      simp only [Device.post, Function.update_self, List.length_append]
      omega
    · simpa [Device.post, hq] using h.bound q'
  · rw [done_post h]
    exact h.order q'

theorem done_complete {r : ρ} (hr : (d.posted q)[d.completed q]? = some r) (q' : Nat) :
    (d.complete cqe q r).done q' = if q' = q then d.done q ++ [r] else d.done q' := by
  by_cases hq : q' = q
  · subst hq
    simp [done, complete, List.take_add_one, hr]
  · simp [done, complete, hq]

theorem pending_complete (r : ρ) (q' : Nat) :
    (d.complete cqe q r).pending q' =
      if q' = q then d.pending q ++ (cqe r).toList else d.pending q' := by
  cases hc : cqe r with
  | none => by_cases hq : q' = q <;> simp [pending, complete, hc, hq]
  | some k =>
    by_cases hq : q' = q
    · simp [pending, complete, hc, hq]
    · have hq' : ¬ q = q' := fun h => hq h.symm
      simp [pending, complete, hc, hq, hq']

theorem Fifo.complete {r : ρ} (h : Fifo cqe d) (hr : (d.posted q)[d.completed q]? = some r) :
    Fifo cqe (d.complete cqe q r) := by
  obtain ⟨hl, -⟩ := List.getElem?_eq_some_iff.mp hr
  refine ⟨fun q' => ?_, fun q' => ?_⟩
  · by_cases hq : q' = q
    · subst hq
      simpa [Device.complete] using hl
    · simpa [Device.complete, hq] using h.bound q'
  · have ho := h.order q'
    rw [done_complete hr, pending_complete]
    by_cases hq : q' = q
    · subst hq
      simp only [if_true, List.filterMap_append, ← ho]
      cases hc : cqe r <;> simp [Device.complete, hc]
    · simpa [hq, Device.complete] using ho

theorem pending_cons {k : κ} {rest : List (Nat × κ)} (hc : d.cq = (q, k) :: rest) :
    d.pending q = k :: (d.pop q k rest).pending q := by
  simp [pending, hc, pop]

theorem Fifo.pop {k : κ} {rest : List (Nat × κ)} (h : Fifo cqe d) (hc : d.cq = (q, k) :: rest) :
    Fifo cqe (d.pop q k rest) := by
  refine ⟨h.bound, fun q' => ?_⟩
  have ho := h.order q'
  by_cases hq : q' = q
  · subst hq
    rw [pending_cons hc] at ho
    simpa [Device.pop, done] using ho
  · have hq' : ¬ q = q' := fun h => hq h.symm
    have hp : (d.pop q k rest).pending q' = d.pending q' := by simp [pending, hc, Device.pop, hq']
    have hd : (d.pop q k rest).done q' = d.done q' := rfl
    have hl : (d.pop q k rest).polled q' = d.polled q' := by simp [Device.pop, hq]
    rw [hp, hd, hl]
    exact ho

/-- The completions of kind `p`, polled and pending, are those of the completed requests. -/
theorem Fifo.count (h : Fifo cqe d) (p : κ → Bool) (q : Nat) :
    (d.polled q).countP p + (d.pending q).countP p =
      (d.done q).countP fun r => (cqe r).any p := by
  rw [← List.countP_append, h.order q, List.countP_filterMap]
  refine List.countP_congr fun r _ => ?_
  cases cqe r <;> simp

/-- Requests complete in post order, also those of one kind. -/
theorem done_labelled {sel : ρ → Bool} {label : Nat → ρ} {n : Nat}
    (hl : (d.posted q).filter sel = (List.range n).map label) :
    (d.done q).countP sel ≤ n ∧
      (d.done q).filter sel = (List.range ((d.done q).countP sel)).map label :=
  prefix_labelled hl (List.take_prefix _ _)

/-- The completions of the requests of one kind, counted by the labels of the requests. -/
theorem Fifo.count_labelled (h : Fifo cqe d) {p : κ → Bool} {sel : ρ → Bool} {label : Nat → ρ}
    {n : Nat} (hsel : ∀ r, (cqe r).any p = true → sel r = true)
    (hl : (d.posted q).filter sel = (List.range n).map label) :
    (d.polled q).countP p + (d.pending q).countP p =
      (List.range ((d.done q).countP sel)).countP fun k => (cqe (label k)).any p := by
  have hc : ((d.done q).filter sel).countP (fun r => (cqe r).any p) =
      (d.done q).countP fun r => (cqe r).any p := by
    rw [List.countP_filter]
    refine List.countP_congr fun r _ => ?_
    have := hsel r
    cases hr : (cqe r).any p <;> simp_all
  rw [h.count p q, ← hc, (done_labelled hl).2, List.countP_map]
  rfl

/-- The requests of queue `q` that no polled completion has retired. -/
def outstanding (cqe : ρ → Option κ) (d : Device ρ κ) (q : Nat) : List ρ :=
  (d.posted q).drop (retired cqe (d.posted q) (d.polled q).length)

/-- The requests of queue `q` that have not completed. -/
def uncompleted (d : Device ρ κ) (q : Nat) : Nat := (d.posted q).length - d.completed q

theorem sum_uncompleted_complete (cqe : ρ → Option κ) {n : Nat} (hq : q < n)
    (hlt : d.completed q < (d.posted q).length) (r : ρ) :
    ∑ i ∈ Finset.range n, (d.complete cqe q r).uncompleted i <
      ∑ i ∈ Finset.range n, d.uncompleted i := by
  refine Finset.sum_lt_sum (fun i _ => ?_) ⟨q, Finset.mem_range.mpr hq, ?_⟩
  · by_cases hi : i = q
    · subst hi
      simp only [uncompleted, complete, Function.update_self]
      omega
    · simp [uncompleted, complete, hi]
  · simp only [uncompleted, complete, Function.update_self]
    omega

theorem sum_polled_pop {n : Nat} (hq : q < n) (k : κ) (rest : List (Nat × κ)) :
    ∑ i ∈ Finset.range n, ((d.pop q k rest).polled i).length =
      ∑ i ∈ Finset.range n, (d.polled i).length + 1 := by
  rw [← sum_update_add (fun i => (d.polled i).length) hq]
  refine Finset.sum_congr rfl fun i _ => ?_
  by_cases hi : i = q
  · subst hi
    simp [pop]
  · simp [pop, hi]

theorem sum_uncompleted_post {n : Nat} (hq : q < n) (rs : List ρ) :
    ∑ i ∈ Finset.range n, (d.post q rs).uncompleted i ≤
      ∑ i ∈ Finset.range n, d.uncompleted i + rs.length := by
  rw [← sum_update_add _ hq]
  refine Finset.sum_le_sum fun i _ => ?_
  by_cases hi : i = q
  · subst hi
    simp only [uncompleted, post, Function.update_self, List.length_append]
    omega
  · simp [uncompleted, post, hi]

/-- No more entries are there, polled or pending, than the posted requests leave. -/
theorem Fifo.entries_le (h : Fifo cqe d) (q : Nat) :
    (d.polled q).length + (d.pending q).length ≤
      (d.posted q).countP fun r => (cqe r).isSome := by
  calc (d.polled q).length + (d.pending q).length = ((d.done q).filterMap cqe).length := by
        rw [← h.order q, List.length_append]
    _ = (d.done q).countP fun r => (cqe r).isSome := List.length_filterMap_eq_countP
    _ ≤ (d.posted q).countP fun r => (cqe r).isSome := (List.take_sublist _ _).countP_le

/-- A pending completion belongs to a queue with a request that leaves one. -/
theorem Fifo.posted_of_pending (h : Fifo cqe d) {k : κ} {rest : List (Nat × κ)}
    (hc : d.cq = (q, k) :: rest) : 0 < (d.posted q).countP fun r => (cqe r).isSome := by
  have hle := h.entries_le q
  rw [pending_cons hc, List.length_cons] at hle
  omega

theorem Fifo.entries_eq (h : Fifo cqe d) {q : Nat} (hc : d.completed q = (d.posted q).length) :
    (d.polled q).length + (d.pending q).length =
      (d.posted q).countP fun r => (cqe r).isSome := by
  rw [← List.length_append, h.order q, Device.done, hc, List.take_length]
  exact List.length_filterMap_eq_countP

/-- The labelled requests split into the retired ones, that account for the polled completions,
and the outstanding ones. -/
theorem Fifo.outstanding_labelled (h : Fifo cqe d) {sel : ρ → Bool} {label : Nat → ρ} {n : Nat}
    (hsel : ∀ r, (cqe r).isSome = true → sel r = true)
    (hl : (d.posted q).filter sel = (List.range n).map label) :
    ∃ m, m + (d.outstanding cqe q).countP sel = n ∧
      (List.range m).countP (fun k => (cqe (label k)).isSome) = (d.polled q).length := by
  have hc := countP_take_retired (Nat.le_of_add_right_le (h.entries_le q))
  have hlab := (prefix_labelled hl
    (List.take_prefix (retired cqe (d.posted q) (d.polled q).length) _)).2
  refine ⟨((d.posted q).take (retired cqe (d.posted q) (d.polled q).length)).countP sel, ?_, ?_⟩
  · rw [outstanding, ← List.countP_append, List.take_append_drop, List.countP_eq_length_filter, hl,
      List.length_map, List.length_range]
  · exact (countP_labelled hsel hlab).symm.trans hc

/-- Once every completion was polled, what follows the last request that leaves one is
outstanding. -/
theorem Fifo.outstanding_eq (h : Fifo cqe d) {l t : List ρ} {r : ρ}
    (hl : d.posted q = l ++ r :: t) (hr : (cqe r).isSome = true)
    (ht : ∀ x ∈ t, (cqe x).isSome = false)
    (hp : ((d.posted q).countP fun x => (cqe x).isSome) ≤ (d.polled q).length) :
    d.outstanding cqe q = t := by
  have hle := h.entries_le q
  have he : (d.polled q).length = (d.posted q).countP fun x => (cqe x).isSome := by omega
  rw [outstanding, he, hl, retired_all hr ht, List.append_cons]
  exact List.drop_left' (by rw [List.length_append, List.length_singleton])

theorem pending_eq_nil_iff : (∀ q, d.pending q = []) ↔ d.cq = [] := by
  constructor
  · intro h
    cases hc : d.cq with
    | nil => rfl
    | cons e rest =>
      have he := h e.1
      simp [pending, hc] at he
  · intro h q
    simp [pending, h]

end Device

end WorkQueue
