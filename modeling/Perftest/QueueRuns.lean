import Perftest.QueueSafety

namespace Perftest

open CMachine

namespace ValidationWorkQueue

variable {q q' : ValidationWorkQueue}

theorem ProducerOk.gotTail (h : Inv q) {item : WorkItem} {k : Nat} (hk : k ≤ q.head)
    (hc : ¬ VALIDATION_QUEUE_SIZE ≤ subU32 (u32 k) (u32 q.tail)) :
    ProducerOk q (.gotTail item k q.tail) := by
  refine ⟨hk, le_rfl, fun he => ?_⟩
  subst he
  have hroom := h.room
  have hsize : VALIDATION_QUEUE_SIZE < 2 ^ 32 := by norm_num [VALIDATION_QUEUE_SIZE]
  rw [subU32_u32 hroom.1 (by omega)] at hc
  omega

theorem Inv.producerStep (h : Inv q) {p : Nat} {a : QueueStep}
    (hp : a = .loadHead p ∨ a = .loadTail p ∨ a = .casHead p ∨ a = .store p)
    (hu : a.unhurried q = true) (ha : act a q = some q') : Inv q' := by
  have hok := h.threads.producers p
  rcases hp with rfl | rfl | rfl | rfl <;> simp only [act] at ha <;> split at ha
  · next item hq =>
    obtain rfl := Option.some.inj ha
    exact h.setProducer (l := .gotHead item q.head) le_rfl (by simp [hq]) (by simp)
  · simp at ha
  · next item k hq =>
    rw [hq] at hok
    split at ha
    next =>
      obtain rfl := Option.some.inj ha
      exact h.setProducer trivial (by simp [hq]) (by simp)
    next hc =>
      obtain rfl := Option.some.inj ha
      exact h.setProducer (.gotTail h hok hc) (by simp [hq]) (by simp)
  · simp at ha
  · next item k t hq =>
    split at ha
    next he =>
      obtain rfl := Option.some.inj ha
      simp only [QueueStep.unhurried, hq, he, ne_eq, not_true_eq_false, decide_false,
        Bool.false_or, Bool.and_eq_true, Bool.or_eq_true, decide_eq_true_eq] at hu
      obtain ⟨rfl, hfree⟩ := hu
      exact h.casHead hq hfree
    next =>
      obtain rfl := Option.some.inj ha
      exact h.setProducer trivial (by simp [hq]) (by simp)
  · simp at ha
  · next item k n hq =>
    rw [hq] at hok
    split at ha
    next hn =>
      obtain rfl := Option.some.inj ha
      exact h.storeField hq hn
    next hn =>
      obtain rfl := Option.some.inj ha
      obtain rfl : n = 4 := by
        have := hok.2.1
        omega
      exact h.storeValid hq
  · simp at ha

theorem Inv.consumerStep (h : Inv q) {c : Nat} {a : QueueStep}
    (hc : a = .popTail c ∨ a = .popHead c ∨ a = .casTail c ∨ a = .spin c ∨ a = .copy c)
    (hu : a.unhurried q = true) (ha : act a q = some q') : Inv q' := by
  have hok := h.threads.consumers c
  rcases hc with rfl | rfl | rfl | rfl | rfl <;> simp only [act] at ha <;> split at ha
  · next hq =>
    obtain rfl := Option.some.inj ha
    exact h.setConsumer (l := .gotTail q.tail) le_rfl (by simp [hq, Consumer.Holds])
  · simp at ha
  · next t hq =>
    rw [hq] at hok
    split at ha
    next =>
      obtain rfl := Option.some.inj ha
      exact h.setConsumer trivial (by simp [hq, Consumer.Holds])
    next hne =>
      obtain rfl := Option.some.inj ha
      have ht : t ≤ q.tail := hok
      have hth : t ≠ q.head := by
        rintro rfl
        exact hne rfl
      have hroom := h.room
      exact h.setConsumer (l := .gotHead t) ⟨by omega, ht⟩ (by simp [hq, Consumer.Holds])
  · simp at ha
  · next t hq =>
    split at ha
    next he =>
      obtain rfl := Option.some.inj ha
      simp only [QueueStep.unhurried, hq, he, ne_eq, not_true_eq_false, decide_false,
        Bool.false_or, decide_eq_true_eq] at hu
      subst hu
      exact h.casTail hq
    next =>
      obtain rfl := Option.some.inj ha
      exact h.setConsumer trivial (by simp [hq, Consumer.Holds])
  · simp at ha
  · next k hq =>
    rw [hq] at hok
    split at ha
    next hv =>
      obtain rfl := Option.some.inj ha
      have hpub : q.published k = true := by
        by_contra hf
        have := h.slots.filling k (Nat.lt_of_lt_of_le hok.1 h.room.1) (by simpa using hf)
        rw [hv] at this
        cases this
      exact h.setConsumer (l := .copy k 0 ⟨0, 0, 0, 0⟩)
        ⟨hok.1, hok.2, hpub, by omega, .zero _ _⟩ (by simp [hq, Consumer.Holds])
    next =>
      obtain rfl := Option.some.inj ha
      exact h
  · simp at ha
  · next k n out hq =>
    rw [hq] at hok
    obtain ⟨hk, hr, hp, hn4, hag⟩ := hok
    split at ha
    next hn =>
      obtain rfl := Option.some.inj ha
      have hfull := (h.slots.full k hp hr).2
      exact h.setConsumer (l := .copy k (n + 1) (copyField (q.items (slotOf k)) n out))
        ⟨hk, hr, hp, hn, hag.copy hn hfull⟩ (by simp [hq, Consumer.Holds])
    next hn =>
      obtain rfl := Option.some.inj ha
      obtain rfl : n = 4 := by omega
      exact h.clear hq
  · simp at ha

theorem Inv.step (h : Inv q) {a : QueueStep} (hu : a.unhurried q = true)
    (ha : act a q = some q') : Inv q' := by
  cases a with
  | push p item =>
    simp only [act] at ha
    split at ha
    next hq =>
      obtain rfl := Option.some.inj ha
      exact h.setProducer (l := .entered item) trivial (by simp [hq]) (by simp)
    next => simp at ha
  | loadHead p => exact h.producerStep (p := p) (by simp) hu ha
  | loadTail p => exact h.producerStep (p := p) (by simp) hu ha
  | casHead p => exact h.producerStep (p := p) (by simp) hu ha
  | store p => exact h.producerStep (p := p) (by simp) hu ha
  | popTail c => exact h.consumerStep (c := c) (by simp) hu ha
  | popHead c => exact h.consumerStep (c := c) (by simp) hu ha
  | casTail c => exact h.consumerStep (c := c) (by simp) hu ha
  | spin c => exact h.consumerStep (c := c) (by simp) hu ha
  | copy c => exact h.consumerStep (c := c) (by simp) hu ha

theorem Inv.of_reachable (h : UnhurriedReachable q) : Inv q := by
  refine Transition.Reachable.invariant ?_ ?_ h
  · rintro q rfl
    exact .init
  · intro q q' hi hst
    obtain ⟨a, ha⟩ := hst
    obtain ⟨hu, ha⟩ := Transition.guarded_eq_some.mp ha
    exact hi.step hu ha

theorem Inv.ok (h : Inv q) : QueueOk q := by
  have hs := h.slots
  refine ⟨?_, h.returned_once, ?_, ?_, ?_, ?_⟩
  · intro e he
    obtain ⟨hr, hi⟩ := h.returned_own e he
    exact ⟨(hs.released_ok _ hr).2, hi⟩
  · intro k hk
    rcases Nat.lt_or_ge k q.tail with hlt | hge
    · rcases h.threads.held k hlt with hr | hc
      · exact .inl (h.returned_all k hr)
      · exact .inr (.inl hc)
    · exact .inr (.inr hge)
  · intro c k hk
    refine ⟨fun hm => ?_, fun c' hc' => h.threads.held_once c' c k hc' hk⟩
    obtain ⟨e, he, rfl⟩ := List.mem_map.mp hm
    have hr := ((h.threads.consumers c).of_holds hk).2
    exact absurd (hr.symm.trans (h.returned_own e he).1) (by simp)
  · intro p item k n hp c j hj he
    obtain ⟨hk, -, hrk, -⟩ := h.storing_slot hp
    obtain ⟨hjt, hrj⟩ := (h.threads.consumers c).of_holds hj
    exact hs.slot_inj (Nat.lt_of_lt_of_le hjt h.room.1) hk hrj hrk he
  · intro c k hk
    obtain ⟨hkt, hr⟩ := (h.threads.consumers c).of_holds hk
    rcases h.threads.storing k (Nat.lt_of_lt_of_le hkt h.room.1) with hp | hp
    · exact .inl ⟨hp, hs.full k hp hr⟩
    · exact .inr hp

end ValidationWorkQueue

/-- In every interleaving in which no push overtakes the pop of the previous lap of its slot and no
exchange meets a wrapped counter, every pushed item is popped once with its own fields. -/
theorem workQueue_ok (q : ValidationWorkQueue) (h : q.UnhurriedReachable) : QueueOk q :=
  (ValidationWorkQueue.Inv.of_reachable h).ok

/-- The steps of an undisturbed push and of an undisturbed pop. -/
def pushSteps (p : Nat) (item : WorkItem) : List QueueStep :=
  [.push p item, .loadHead p, .loadTail p, .casHead p, .store p, .store p, .store p, .store p,
    .store p]

def popSteps (c : Nat) : List QueueStep :=
  [.popTail c, .popHead c, .casTail c, .spin c, .copy c, .copy c, .copy c, .copy c, .copy c]

def sampleItem : WorkItem := ⟨1, 2, 3, 4⟩

theorem popSteps_run : ∃ q : ValidationWorkQueue, q.UnhurriedReachable ∧
    q.returned.map Prod.fst = [0] ∧ q.pushed 0 = sampleItem := by
  obtain ⟨q, hq, hp⟩ := Transition.exists_of_run (· = ValidationWorkQueue.zero)
    (Transition.guarded QueueStep.unhurried ValidationWorkQueue.act)
    (pushSteps 0 sampleItem ++ popSteps 0) .zero
    (fun q => q.returned.map Prod.fst = [0] && q.pushed 0 = sampleItem) rfl (by decide +kernel)
  simp only [Bool.and_eq_true, decide_eq_true_eq] at hp
  exact ⟨q, hq, hp.1, hp.2⟩

theorem popSteps_returned : ∃ q : ValidationWorkQueue, q.UnhurriedReachable ∧
    ∃ e ∈ q.returned, e.2 = sampleItem := by
  obtain ⟨q, hq, hr, hp⟩ := popSteps_run
  have hok := workQueue_ok q hq
  have hm : 0 ∈ q.returned.map Prod.fst := by
    rw [hr]
    exact List.mem_singleton_self 0
  obtain ⟨e, he, h0⟩ := List.mem_map.mp hm
  refine ⟨q, hq, e, he, ?_⟩
  rw [(hok.returned_own e he).2, h0, hp]

namespace ValidationWorkQueue

variable {q : ValidationWorkQueue}

/-- What the steps of one producer keep while no item is claimed. -/
structure SameEnds (q q' : ValidationWorkQueue) : Prop where
  head : q'.head = q.head
  tail : q'.tail = q.tail
  consumers : q'.consumers = q.consumers

/-- A push by the only running thread of a queue with room, up to its claim of a slot. -/
theorem claimSteps_run {p : Nat} (item : WorkItem) (hp : q.producers p = .idle)
    (hc : ¬ VALIDATION_QUEUE_SIZE ≤ subU32 (u32 q.head) (u32 q.tail)) :
    ∃ q', Transition.run act ((pushSteps p item).take 4) q = some q' ∧ q'.head = q.head + 1 ∧
      q'.tail = q.tail ∧ q'.producers p = .store item q.head 0 ∧ q'.consumers = q.consumers := by
  simp [Transition.run, pushSteps, act, setProducer, hp, hc]

theorem storeStep_run {p k n : Nat} {item : WorkItem} (h : q.producers p = .store item k n)
    (hn : n < 4) : ∃ q', act (.store p) q = some q' ∧ q'.producers p = .store item k (n + 1) ∧
      q.SameEnds q' := by
  refine ⟨{ q.setProducer p (.store item k (n + 1)) with
    items := Function.update q.items (slotOf k) (storeField item n (q.items (slotOf k))) }, ?_, ?_,
    rfl, rfl, rfl⟩
  · simp only [act, h, if_pos hn]
  · exact Function.update_self _ _ _

theorem lastStore_run {p k : Nat} {item : WorkItem} (h : q.producers p = .store item k 4) :
    ∃ q', act (.store p) q = some q' ∧ q'.producers p = .idle ∧ q.SameEnds q' := by
  refine ⟨{ q.setProducer p .idle with
    items := Function.update q.items (slotOf k) { q.items (slotOf k) with valid := true }
    published := Function.update q.published k true }, ?_, ?_, rfl, rfl, rfl⟩
  · simp only [act, h, if_neg (Nat.lt_irrefl 4)]
  · exact Function.update_self _ _ _

/-- A push by the only running thread of a queue with room. -/
theorem pushSteps_run {p : Nat} (item : WorkItem) (hp : q.producers p = .idle)
    (ht : q.tail ≤ q.head) (hr : q.head - q.tail < VALIDATION_QUEUE_SIZE) :
    ∃ q', Transition.run act (pushSteps p item) q = some q' ∧ q'.head = q.head + 1 ∧
      q'.tail = q.tail ∧ q'.producers p = .idle ∧ q'.consumers = q.consumers := by
  have hsize : VALIDATION_QUEUE_SIZE < 2 ^ 32 := by norm_num [VALIDATION_QUEUE_SIZE]
  have hc : ¬ VALIDATION_QUEUE_SIZE ≤ subU32 (u32 q.head) (u32 q.tail) := by
    rw [subU32_u32 ht (by omega)]
    omega
  obtain ⟨q₀, hrun, hh, hl, h₀, hk⟩ := claimSteps_run item hp hc
  obtain ⟨q₁, ha₁, h₁, he₁⟩ := storeStep_run h₀ (by omega)
  obtain ⟨q₂, ha₂, h₂, he₂⟩ := storeStep_run h₁ (by omega)
  obtain ⟨q₃, ha₃, h₃, he₃⟩ := storeStep_run h₂ (by omega)
  obtain ⟨q₄, ha₄, h₄, he₄⟩ := storeStep_run h₃ (by omega)
  obtain ⟨q₅, ha₅, h₅, he₅⟩ := lastStore_run h₄
  refine ⟨q₅, ?_, ?_, ?_, h₅, ?_⟩
  · rw [← List.take_append_drop 4 (pushSteps p item), Transition.run, List.foldlM_append,
      ← Transition.run, hrun]
    show Transition.run act (List.replicate 5 (.store p)) q₀ = some q₅
    rw [List.replicate, Transition.run_cons ha₁, List.replicate, Transition.run_cons ha₂,
      List.replicate, Transition.run_cons ha₃, List.replicate, Transition.run_cons ha₄,
      List.replicate, Transition.run_cons ha₅]
    rfl
  · rw [he₅.head, he₄.head, he₃.head, he₂.head, he₁.head, hh]
  · rw [he₅.tail, he₄.tail, he₃.tail, he₂.tail, he₁.tail, hl]
  · rw [he₅.consumers, he₄.consumers, he₃.consumers, he₂.consumers, he₁.consumers, hk]

/-- The first item is claimed by a pop that stalls, and `n` items are pushed. -/
theorem reachable_stalled (n : Nat) (h1 : 1 ≤ n) (hn : n ≤ VALIDATION_QUEUE_SIZE) :
    ∃ q : ValidationWorkQueue, q.Reachable ∧ q.head = n ∧ q.tail = 1 ∧
      q.producers 0 = .idle ∧ q.consumers 0 = .claimed 0 := by
  induction n, h1 using Nat.le_induction with
  | base =>
    obtain ⟨q, hq, hp⟩ := Transition.exists_of_run (· = ValidationWorkQueue.zero) act
      (pushSteps 0 sampleItem ++ [.popTail 0, .popHead 0, .casTail 0]) .zero
      (fun q => q.head = 1 && q.tail = 1 && q.producers 0 = .idle && q.consumers 0 = .claimed 0)
      rfl (by decide +kernel)
    simp only [Bool.and_eq_true, decide_eq_true_eq] at hp
    exact ⟨q, hq, hp.1.1.1, hp.1.1.2, hp.1.2, hp.2⟩
  | succ n h1 ih =>
    obtain ⟨q, hq, hh, ht, hp, hc⟩ := ih (by omega)
    obtain ⟨q', hrun, hh', ht', hp', hc'⟩ := pushSteps_run sampleItem hp (by omega) (by omega)
    exact ⟨q', Transition.Reachable.run hq hrun, by omega, by omega, hp', by rw [hc', hc]⟩

end ValidationWorkQueue

/-- A push of the next lap claims the slot of an item that its pop has not copied. -/
theorem stalledPop_not_ok : ¬ ∀ q : ValidationWorkQueue, q.Reachable → QueueOk q := by
  intro h
  obtain ⟨q, hq, hh, ht, hp, hc⟩ :=
    ValidationWorkQueue.reachable_stalled VALIDATION_QUEUE_SIZE queueSize_pos le_rfl
  have hroom : ¬ VALIDATION_QUEUE_SIZE ≤ subU32 (u32 q.head) (u32 q.tail) := by
    rw [hh, ht, subU32_u32 queueSize_pos (by norm_num [VALIDATION_QUEUE_SIZE])]
    have := queueSize_pos
    omega
  obtain ⟨q', hrun, -, -, hp', hc'⟩ := ValidationWorkQueue.claimSteps_run sampleItem hp hroom
  have hholds : (q'.consumers 0).Holds 0 := by
    rw [hc', hc]
    exact rfl
  have hslot : slotOf 0 = slotOf q.head := by
    rw [hh, slotOf_eq, slotOf_eq, Nat.mod_self, Nat.zero_mod]
  have hz := (h q' (Transition.Reachable.run hq hrun)).stores_safe 0 sampleItem q.head 0 hp' 0 0
    hholds hslot
  have := queueSize_pos
  omega

end Perftest
