import Perftest.ValidationQueue

namespace Perftest

open CMachine

theorem queueSize_pos : 0 < VALIDATION_QUEUE_SIZE := by norm_num [VALIDATION_QUEUE_SIZE]

theorem slotOf_eq (k : Nat) : slotOf k = k % VALIDATION_QUEUE_SIZE :=
  Nat.mod_mod_of_dvd k ⟨4096, by norm_num [VALIDATION_QUEUE_SIZE]⟩

theorem slotOf_add (k : Nat) : slotOf (k + VALIDATION_QUEUE_SIZE) = slotOf k := by
  rw [slotOf_eq, slotOf_eq, Nat.add_mod_right]

/-- Positions of one lap of the ring have distinct slots. -/
theorem slotOf_inj (lo : Nat) {j k : Nat} (hj : lo ≤ j) (hj' : j < lo + VALIDATION_QUEUE_SIZE)
    (hk : lo ≤ k) (hk' : k < lo + VALIDATION_QUEUE_SIZE) (h : slotOf j = slotOf k) : j = k := by
  rw [slotOf_eq, slotOf_eq] at h
  exact Nat.mod_injOn_Ico lo VALIDATION_QUEUE_SIZE (by simp [hj, hj']) (by simp [hk, hk']) h

/-- The first `n` fields in the order in which they are stored and copied. -/
structure Agrees (n : Nat) (a b : WorkItem) : Prop where
  qpId : 0 < n → a.qpId = b.qpId
  markerEpoch : 1 < n → a.markerEpoch = b.markerEpoch
  chunkId : 2 < n → a.chunkId = b.chunkId
  expectedPattern : 3 < n → a.expectedPattern = b.expectedPattern

namespace Agrees

variable {n : Nat} {a b : WorkItem}

theorem zero (a b : WorkItem) : Agrees 0 a b := ⟨nofun, nofun, nofun, nofun⟩

theorem eq (h : Agrees 4 a b) : a = b :=
  WorkItem.ext (h.qpId (by omega)) (h.markerEpoch (by omega)) (h.chunkId (by omega))
    (h.expectedPattern (by omega))

theorem store {v : ValidationWorkItem} (hn : n < 4) (h : Agrees n v.toWorkItem a) :
    Agrees (n + 1) (storeField a n v).toWorkItem a := by
  obtain ⟨h0, h1, h2, h3⟩ := h
  have hcases : n = 0 ∨ n = 1 ∨ n = 2 ∨ n = 3 := by omega
  rcases hcases with rfl | rfl | rfl | rfl
  · exact ⟨fun _ => rfl, by omega, by omega, by omega⟩
  · exact ⟨fun _ => h0 (by omega), fun _ => rfl, by omega, by omega⟩
  · exact ⟨fun _ => h0 (by omega), fun _ => h1 (by omega), fun _ => rfl, by omega⟩
  · exact ⟨fun _ => h0 (by omega), fun _ => h1 (by omega), fun _ => h2 (by omega), fun _ => rfl⟩

theorem copy {v : ValidationWorkItem} (hn : n < 4) (h : Agrees n a b) (hv : v.toWorkItem = b) :
    Agrees (n + 1) (copyField v n a) b := by
  subst hv
  obtain ⟨h0, h1, h2, h3⟩ := h
  have hcases : n = 0 ∨ n = 1 ∨ n = 2 ∨ n = 3 := by omega
  rcases hcases with rfl | rfl | rfl | rfl
  · exact ⟨fun _ => rfl, by omega, by omega, by omega⟩
  · exact ⟨fun _ => h0 (by omega), fun _ => rfl, by omega, by omega⟩
  · exact ⟨fun _ => h0 (by omega), fun _ => h1 (by omega), fun _ => rfl, by omega⟩
  · exact ⟨fun _ => h0 (by omega), fun _ => h1 (by omega), fun _ => h2 (by omega), fun _ => rfl⟩

end Agrees

theorem storeField_valid (item : WorkItem) (n : Nat) (v : ValidationWorkItem) :
    (storeField item n v).valid = v.valid := by
  unfold storeField
  split <;> rfl

namespace ValidationWorkQueue

variable {q q' : ValidationWorkQueue}

/-- What a producer knows of the queue at each of its steps. -/
def ProducerOk (q : ValidationWorkQueue) : Producer → Prop
  | .idle => True
  | .entered _ => True
  | .gotHead _ h => h ≤ q.head
  | .gotTail _ h t =>
    h ≤ q.head ∧ t ≤ q.tail ∧ (q.head = h → t ≤ h ∧ h < t + VALIDATION_QUEUE_SIZE)
  | .store item k n => k < q.head ∧ n ≤ 4 ∧ q.published k = false ∧ q.pushed k = item ∧
      Agrees n (q.items (slotOf k)).toWorkItem item

def ConsumerOk (q : ValidationWorkQueue) : Consumer → Prop
  | .idle => True
  | .gotTail t => t ≤ q.tail
  | .gotHead t => t < q.head ∧ t ≤ q.tail
  | .claimed k => k < q.tail ∧ q.released k = false
  | .copy k n out => k < q.tail ∧ q.released k = false ∧ q.published k = true ∧ n ≤ 4 ∧
      Agrees n out (q.pushed k)

theorem ProducerOk.mono {l : Producer} (h : ProducerOk q l) (hh : q.head ≤ q'.head)
    (ht : q.tail ≤ q'.tail)
    (hs : ∀ item k n, l = .store item k n → q'.published k = q.published k ∧
      q'.pushed k = q.pushed k ∧
      (q'.items (slotOf k)).toWorkItem = (q.items (slotOf k)).toWorkItem) : ProducerOk q' l := by
  cases l with
  | idle => trivial
  | entered item => trivial
  | gotHead item k => exact Nat.le_trans h hh
  | gotTail item k t =>
    obtain ⟨hk, htt, hc⟩ := h
    exact ⟨Nat.le_trans hk hh, Nat.le_trans htt ht, fun he => hc (by omega)⟩
  | store item k n =>
    obtain ⟨hk, hn, hp, hi, ha⟩ := h
    obtain ⟨hp', hi', ha'⟩ := hs item k n rfl
    exact ⟨Nat.lt_of_lt_of_le hk hh, hn, hp'.trans hp, hi'.trans hi, by rw [ha']; exact ha⟩

theorem ConsumerOk.mono {l : Consumer} (h : ConsumerOk q l) (hh : q.head ≤ q'.head)
    (ht : q.tail ≤ q'.tail)
    (hs : ∀ k, l.Holds k → q'.released k = q.released k ∧
      (q.published k = true → q'.published k = true ∧ q'.pushed k = q.pushed k)) :
    ConsumerOk q' l := by
  cases l with
  | idle => trivial
  | gotTail t => exact Nat.le_trans h ht
  | gotHead t => exact ⟨Nat.lt_of_lt_of_le h.1 hh, Nat.le_trans h.2 ht⟩
  | claimed k => exact ⟨Nat.lt_of_lt_of_le h.1 ht, (hs k rfl).1.trans h.2⟩
  | copy k n out =>
    obtain ⟨hk, hr, hp, hn, ha⟩ := h
    obtain ⟨hr', hp'⟩ := hs k rfl
    exact ⟨Nat.lt_of_lt_of_le hk ht, hr'.trans hr, (hp' hp).1, hn, by rw [(hp' hp).2]; exact ha⟩

theorem ConsumerOk.of_holds {l : Consumer} {k : Nat} (h : ConsumerOk q l) (hl : l.Holds k) :
    k < q.tail ∧ q.released k = false := by
  cases l with
  | idle => exact hl.elim
  | gotTail t => exact hl.elim
  | gotHead t => exact hl.elim
  | claimed j => exact hl ▸ h
  | copy j n out => exact hl ▸ ⟨h.1, h.2.1⟩

/-- The slots: which positions of the ring are full, being filled or free. -/
structure SlotsOk (q : ValidationWorkQueue) : Prop where
  published_lt : ∀ k, q.published k = true → k < q.head
  released_ok : ∀ k, q.released k = true → k < q.tail ∧ q.published k = true
  reused : ∀ k, k + VALIDATION_QUEUE_SIZE < q.head → q.released k = true
  full : ∀ k, q.published k = true → q.released k = false →
    (q.items (slotOf k)).valid = true ∧ (q.items (slotOf k)).toWorkItem = q.pushed k
  filling : ∀ k, k < q.head → q.published k = false → (q.items (slotOf k)).valid = false
  free : ∀ m, q.head ≤ m → m < q.head + VALIDATION_QUEUE_SIZE →
    m < VALIDATION_QUEUE_SIZE ∨ q.released (m - VALIDATION_QUEUE_SIZE) = true →
    (q.items (slotOf m)).valid = false

/-- The positions and the threads that hold them. -/
structure ThreadsOk (q : ValidationWorkQueue) : Prop where
  producers : ∀ p, ProducerOk q (q.producers p)
  consumers : ∀ c, ConsumerOk q (q.consumers c)
  storing_once : ∀ p p' i i' k n n', q.producers p = .store i k n →
    q.producers p' = .store i' k n' → p = p'
  held_once : ∀ c c' k, (q.consumers c).Holds k → (q.consumers c').Holds k → c = c'
  storing : ∀ k, k < q.head →
    q.published k = true ∨ ∃ p n, q.producers p = .store (q.pushed k) k n
  held : ∀ k, k < q.tail → q.released k = true ∨ ∃ c, (q.consumers c).Holds k

structure Inv (q : ValidationWorkQueue) : Prop where
  room : q.tail ≤ q.head ∧ q.head ≤ q.tail + VALIDATION_QUEUE_SIZE
  slots : SlotsOk q
  threads : ThreadsOk q
  returned_own : ∀ e ∈ q.returned, q.released e.1 = true ∧ e.2 = q.pushed e.1
  returned_once : (q.returned.map Prod.fst).Nodup
  returned_all : ∀ k, q.released k = true → k ∈ q.returned.map Prod.fst

theorem Inv.init : Inv zero := by
  refine ⟨⟨le_rfl, Nat.zero_le _⟩, ⟨nofun, nofun, fun k hk => absurd hk (Nat.not_lt_zero _),
    nofun, nofun, fun _ _ _ _ => rfl⟩, ?_, nofun, List.nodup_nil, nofun⟩
  exact ⟨fun _ => trivial, fun _ => trivial, nofun, nofun, nofun, nofun⟩

/-- Two positions that are claimed and not released share no slot. -/
theorem SlotsOk.slot_inj (h : SlotsOk q) {j k : Nat} (hj : j < q.head) (hk : k < q.head)
    (hrj : q.released j = false) (hrk : q.released k = false) (he : slotOf j = slotOf k) :
    j = k := by
  have hlj : q.head ≤ j + VALIDATION_QUEUE_SIZE := by
    by_contra hlt
    have := h.reused j (by omega)
    simp [hrj] at this
  have hlk : q.head ≤ k + VALIDATION_QUEUE_SIZE := by
    by_contra hlt
    have := h.reused k (by omega)
    simp [hrk] at this
  exact slotOf_inj (q.head - VALIDATION_QUEUE_SIZE) (by omega) (by omega) (by omega)
    (by omega) he

theorem SlotsOk.released_false (h : SlotsOk q) {k : Nat} (hp : q.published k = false) :
    q.released k = false := by
  by_contra hr
  have := (h.released_ok k (by simpa using hr)).2
  simp [hp] at this

/-- A step that only moves one producer, which stores neither before nor after it. -/
theorem Inv.setProducer (h : Inv q) {p : Nat} {l : Producer} (hl : ProducerOk q l)
    (hold : ∀ i k n, q.producers p ≠ .store i k n) (hnew : ∀ i k n, l ≠ .store i k n) :
    Inv (q.setProducer p l) := by
  have hback : ∀ p' i k n, Function.update q.producers p l p' = .store i k n →
      q.producers p' = .store i k n := by
    intro p' i k n he
    by_cases hp : p' = p
    · subst hp
      rw [Function.update_self] at he
      exact absurd he (hnew i k n)
    · rwa [Function.update_of_ne hp] at he
  have hslots := h.slots
  refine ⟨h.room, ⟨hslots.published_lt, hslots.released_ok, hslots.reused, hslots.full,
    hslots.filling, hslots.free⟩, ⟨?_, ?_, ?_, h.threads.held_once, ?_, h.threads.held⟩,
    h.returned_own, h.returned_once, h.returned_all⟩
  · intro p'
    by_cases hp : p' = p
    · subst hp
      show ProducerOk _ (Function.update q.producers p' l p')
      rw [Function.update_self]
      exact hl.mono le_rfl le_rfl fun _ _ _ _ => ⟨rfl, rfl, rfl⟩
    · show ProducerOk _ (Function.update q.producers p l p')
      rw [Function.update_of_ne hp]
      exact (h.threads.producers p').mono le_rfl le_rfl fun _ _ _ _ => ⟨rfl, rfl, rfl⟩
  · intro c
    exact (h.threads.consumers c).mono le_rfl le_rfl fun _ _ => ⟨rfl, fun hp => ⟨hp, rfl⟩⟩
  · intro p₁ p₂ i i' k n n' h₁ h₂
    exact h.threads.storing_once p₁ p₂ i i' k n n' (hback _ _ _ _ h₁) (hback _ _ _ _ h₂)
  · intro k hk
    rcases h.threads.storing k hk with hp | ⟨p', n, hp'⟩
    · exact .inl hp
    · refine .inr ⟨p', n, ?_⟩
      have hne : p' ≠ p := by
        rintro rfl
        exact hold _ _ _ hp'
      exact (Function.update_of_ne hne _ _).trans hp'

/-- A step that only moves one consumer, which holds the same position before and after it. -/
theorem Inv.setConsumer (h : Inv q) {c : Nat} {l : Consumer} (hl : ConsumerOk q l)
    (hsame : ∀ k, l.Holds k ↔ (q.consumers c).Holds k) : Inv (q.setConsumer c l) := by
  have hholds : ∀ c' k, (Function.update q.consumers c l c').Holds k ↔ (q.consumers c').Holds k := by
    intro c' k
    by_cases hc : c' = c
    · subst hc
      rw [Function.update_self]
      exact hsame k
    · rw [Function.update_of_ne hc]
  have hslots := h.slots
  refine ⟨h.room, ⟨hslots.published_lt, hslots.released_ok, hslots.reused, hslots.full,
    hslots.filling, hslots.free⟩, ⟨?_, ?_, h.threads.storing_once, ?_, h.threads.storing, ?_⟩,
    h.returned_own, h.returned_once, h.returned_all⟩
  · intro p
    exact (h.threads.producers p).mono le_rfl le_rfl fun _ _ _ _ => ⟨rfl, rfl, rfl⟩
  · intro c'
    by_cases hc : c' = c
    · subst hc
      show ConsumerOk _ (Function.update q.consumers c' l c')
      rw [Function.update_self]
      exact hl.mono le_rfl le_rfl fun _ _ => ⟨rfl, fun hp => ⟨hp, rfl⟩⟩
    · show ConsumerOk _ (Function.update q.consumers c l c')
      rw [Function.update_of_ne hc]
      exact (h.threads.consumers c').mono le_rfl le_rfl fun _ _ => ⟨rfl, fun hp => ⟨hp, rfl⟩⟩
  · intro c₁ c₂ k h₁ h₂
    exact h.threads.held_once c₁ c₂ k ((hholds c₁ k).mp h₁) ((hholds c₂ k).mp h₂)
  · intro k hk
    rcases h.threads.held k hk with hr | ⟨c', hc'⟩
    · exact .inl hr
    · exact .inr ⟨c', (hholds c' k).mpr hc'⟩

/-- The exchange of a push that succeeds: the position `head` becomes the producer's. -/
theorem Inv.casHead (h : Inv q) {p t : Nat} {item : WorkItem}
    (hp : q.producers p = .gotTail item q.head t)
    (hfree : q.head < VALIDATION_QUEUE_SIZE ∨
      q.released (q.head - VALIDATION_QUEUE_SIZE) = true) :
    Inv { q.setProducer p (.store item q.head 0) with
      head := q.head + 1
      pushed := Function.update q.pushed q.head item } := by
  have hok := h.threads.producers p
  rw [hp] at hok
  obtain ⟨-, htt, hc⟩ := hok
  obtain ⟨hth, hroom⟩ := hc rfl
  have hs := h.slots
  have hpub : q.published q.head = false := by
    by_contra hf
    have := hs.published_lt q.head (by simpa using hf)
    omega
  have hold : ∀ k, k < q.head → Function.update q.pushed q.head item k = q.pushed k :=
    fun k hk => Function.update_of_ne (Nat.ne_of_lt hk) _ _
  have hne : ∀ p' i k n, q.producers p' = .store i k n → p' ≠ p := by
    rintro p' i k n hp' rfl
    rw [hp] at hp'
    cases hp'
  refine ⟨⟨Nat.le_succ_of_le h.room.1, ?_⟩, ⟨?_, hs.released_ok, ?_, ?_, ?_, ?_⟩,
    ⟨?_, ?_, ?_, h.threads.held_once, ?_, h.threads.held⟩, ?_, h.returned_once, h.returned_all⟩
  · show q.head + 1 ≤ q.tail + VALIDATION_QUEUE_SIZE
    omega
  · intro k hk
    exact Nat.lt_succ_of_lt (hs.published_lt k hk)
  · intro k hk
    rcases Nat.lt_or_ge (k + VALIDATION_QUEUE_SIZE) q.head with hlt | hge
    · exact hs.reused k hlt
    · have hk : k + VALIDATION_QUEUE_SIZE < q.head + 1 := hk
      rcases hfree with hf | hf
      · omega
      · rwa [show q.head - VALIDATION_QUEUE_SIZE = k by omega] at hf
  · intro k hk hr
    show _ ∧ _ = Function.update q.pushed q.head item k
    rw [hold k (hs.published_lt k hk)]
    exact hs.full k hk hr
  · intro k hk hkp
    rcases Nat.lt_succ_iff_lt_or_eq.mp hk with hlt | rfl
    · exact hs.filling k hlt hkp
    · exact hs.free q.head le_rfl (by have := queueSize_pos; omega) hfree
  · intro m hm hm' hmf
    have hm : q.head + 1 ≤ m := hm
    have hm' : m < q.head + 1 + VALIDATION_QUEUE_SIZE := hm'
    rcases Nat.lt_or_ge m (q.head + VALIDATION_QUEUE_SIZE) with hlt | hge
    · exact hs.free m (by omega) hlt hmf
    · rcases hmf with hmf | hmf
      · omega
      · rw [show m - VALIDATION_QUEUE_SIZE = q.head by omega] at hmf
        have := (hs.released_ok q.head hmf).2
        simp [hpub] at this
  · intro p'
    show ProducerOk _ (Function.update q.producers p (.store item q.head 0) p')
    by_cases hpp : p' = p
    · subst hpp
      rw [Function.update_self]
      exact ⟨Nat.lt_succ_self _, by omega, hpub, Function.update_self .., .zero _ _⟩
    · rw [Function.update_of_ne hpp]
      have hok := h.threads.producers p'
      refine hok.mono (Nat.le_succ _) le_rfl ?_
      intro i k n he
      rw [he] at hok
      exact ⟨rfl, hold k hok.1, rfl⟩
  · intro c
    refine (h.threads.consumers c).mono (Nat.le_succ _) le_rfl ?_
    intro k _
    exact ⟨rfl, fun hk => ⟨hk, hold k (hs.published_lt k hk)⟩⟩
  · have hnew : ∀ p' i k n,
        Function.update q.producers p (.store item q.head 0) p' = .store i k n →
        (p' = p ∧ k = q.head) ∨ (q.producers p' = .store i k n ∧ k < q.head) := by
      intro p' i k n he
      by_cases hpp : p' = p
      · subst hpp
        rw [Function.update_self] at he
        cases he
        exact .inl ⟨rfl, rfl⟩
      · rw [Function.update_of_ne hpp] at he
        have hok := h.threads.producers p'
        rw [he] at hok
        exact .inr ⟨he, hok.1⟩
    intro p₁ p₂ i i' k n n' h₁ h₂
    rcases hnew p₁ i k n h₁ with ⟨rfl, hk₁⟩ | ⟨h₁, hk₁⟩ <;>
      rcases hnew p₂ i' k n' h₂ with ⟨rfl, hk₂⟩ | ⟨h₂, hk₂⟩
    · rfl
    · omega
    · omega
    · exact h.threads.storing_once p₁ p₂ i i' k n n' h₁ h₂
  · intro k hk
    rcases Nat.lt_succ_iff_lt_or_eq.mp hk with hlt | rfl
    · rcases h.threads.storing k hlt with hkp | ⟨p', n, hp'⟩
      · exact .inl hkp
      · refine .inr ⟨p', n, ?_⟩
        show Function.update q.producers p _ p' = .store (Function.update q.pushed q.head item k) k n
        rw [Function.update_of_ne (hne _ _ _ _ hp'), hold k hlt]
        exact hp'
    · refine .inr ⟨p, 0, ?_⟩
      show Function.update q.producers p _ p =
        .store (Function.update q.pushed q.head item q.head) q.head 0
      rw [Function.update_self, Function.update_self]
  · intro e he
    obtain ⟨hr, hi⟩ := h.returned_own e he
    refine ⟨hr, ?_⟩
    show e.2 = Function.update q.pushed q.head item e.1
    rw [hold e.1 (hs.published_lt _ (hs.released_ok _ hr).2)]
    exact hi

/-- What a producer that stores position `k` may rely on. -/
theorem Inv.storing_slot (h : Inv q) {p k n : Nat} {item : WorkItem}
    (hp : q.producers p = .store item k n) :
    k < q.head ∧ q.published k = false ∧ q.released k = false ∧ q.pushed k = item ∧
      Agrees n (q.items (slotOf k)).toWorkItem item ∧ n ≤ 4 := by
  have hok := h.threads.producers p
  rw [hp] at hok
  obtain ⟨hk, hn, hpub, hi, ha⟩ := hok
  exact ⟨hk, hpub, h.slots.released_false hpub, hi, ha, hn⟩

/-- The slot of a stored position differs from that of any other unreleased one. -/
theorem Inv.slot_ne (h : Inv q) {j k : Nat} (hj : j < q.head) (hk : k < q.head)
    (hrj : q.released j = false) (hrk : q.released k = false) (hne : j ≠ k) :
    slotOf j ≠ slotOf k :=
  fun he => hne (h.slots.slot_inj hj hk hrj hrk he)

/-- After a store into the slot of `k` the other producers find their slots unchanged. -/
theorem Inv.other_slot (h : Inv q) {p p' k n k' n' : Nat} {item i' : WorkItem}
    {v : ValidationWorkItem} (hp : q.producers p = .store item k n) (hne : p' ≠ p)
    (hp' : q.producers p' = .store i' k' n') :
    k' ≠ k ∧ Function.update q.items (slotOf k) v (slotOf k') = q.items (slotOf k') := by
  obtain ⟨hk, -, hr, -⟩ := h.storing_slot hp
  obtain ⟨hk', -, hr', -⟩ := h.storing_slot hp'
  have hkk : k' ≠ k := by
    rintro rfl
    exact hne (h.threads.storing_once p' p _ _ k' n' n hp' hp)
  exact ⟨hkk, Function.update_of_ne (h.slot_ne hk' hk hr' hr hkk) _ _⟩

theorem Inv.storeField (h : Inv q) {p k n : Nat} {item : WorkItem}
    (hp : q.producers p = .store item k n) (hn : n < 4) :
    Inv { q.setProducer p (.store item k (n + 1)) with
      items := Function.update q.items (slotOf k)
        (Perftest.storeField item n (q.items (slotOf k))) } := by
  obtain ⟨hk, hpub, hrel, hi, ha, -⟩ := h.storing_slot hp
  have hs := h.slots
  have hvalid : ∀ j, (Function.update q.items (slotOf k)
      (Perftest.storeField item n (q.items (slotOf k))) j).valid = (q.items j).valid := by
    intro j
    by_cases hj : j = slotOf k
    · subst hj
      rw [Function.update_self, storeField_valid]
    · rw [Function.update_of_ne hj]
  have hnew : ∀ p' i k' n',
      Function.update q.producers p (.store item k (n + 1)) p' = .store i k' n' →
      ∃ n'', q.producers p' = .store i k' n'' := by
    intro p' i k' n' he
    by_cases hpp : p' = p
    · subst hpp
      rw [Function.update_self] at he
      cases he
      exact ⟨n, hp⟩
    · rw [Function.update_of_ne hpp] at he
      exact ⟨n', he⟩
  refine ⟨h.room, ⟨hs.published_lt, hs.released_ok, hs.reused, ?_, ?_, ?_⟩,
    ⟨?_, ?_, ?_, h.threads.held_once, ?_, h.threads.held⟩, h.returned_own, h.returned_once,
    h.returned_all⟩
  · intro j hj hr
    have hjk : j ≠ k := by
      rintro rfl
      exact absurd (hpub.symm.trans hj) (by simp)
    have hne := h.slot_ne (hs.published_lt j hj) hk hr hrel hjk
    show (Function.update q.items (slotOf k) _ (slotOf j)).valid = true ∧
      (Function.update q.items (slotOf k) _ (slotOf j)).toWorkItem = q.pushed j
    rw [Function.update_of_ne hne]
    exact hs.full j hj hr
  · intro j hj hjp
    exact (hvalid _).trans (hs.filling j hj hjp)
  · intro m hm hm' hmf
    exact (hvalid _).trans (hs.free m hm hm' hmf)
  · intro p'
    show ProducerOk _ (Function.update q.producers p (.store item k (n + 1)) p')
    by_cases hpp : p' = p
    · subst hpp
      rw [Function.update_self]
      refine ⟨hk, hn, hpub, hi, ?_⟩
      show Agrees (n + 1) (Function.update q.items (slotOf k) _ (slotOf k)).toWorkItem item
      rw [Function.update_self]
      exact ha.store hn
    · rw [Function.update_of_ne hpp]
      refine (h.threads.producers p').mono le_rfl le_rfl ?_
      intro i' k' n' hp'
      exact ⟨rfl, rfl, congrArg _ (h.other_slot hp hpp hp').2⟩
  · intro c
    exact (h.threads.consumers c).mono le_rfl le_rfl fun _ _ => ⟨rfl, fun hj => ⟨hj, rfl⟩⟩
  · intro p₁ p₂ i i' k' n₁ n₂ h₁ h₂
    obtain ⟨m₁, h₁⟩ := hnew p₁ i k' n₁ h₁
    obtain ⟨m₂, h₂⟩ := hnew p₂ i' k' n₂ h₂
    exact h.threads.storing_once p₁ p₂ i i' k' m₁ m₂ h₁ h₂
  · intro j hj
    rcases h.threads.storing j hj with hjp | ⟨p', n', hp'⟩
    · exact .inl hjp
    · refine .inr ?_
      by_cases hpp : p' = p
      · subst hpp
        rw [hp] at hp'
        cases hp'
        exact ⟨p', n + 1, Function.update_self ..⟩
      · exact ⟨p', n', (Function.update_of_ne hpp _ _).trans hp'⟩

/-- The store of the flag, after which the push returns true. -/
theorem Inv.storeValid (h : Inv q) {p k : Nat} {item : WorkItem}
    (hp : q.producers p = .store item k 4) :
    Inv { q.setProducer p .idle with
      items := Function.update q.items (slotOf k) { q.items (slotOf k) with valid := true }
      published := Function.update q.published k true } := by
  obtain ⟨hk, hpub, hrel, hi, ha, -⟩ := h.storing_slot hp
  have hs := h.slots
  have hpo : ∀ j, j ≠ k → Function.update q.published k true j = q.published j :=
    fun j hj => Function.update_of_ne hj _ _
  have hmono : ∀ j, q.published j = true → Function.update q.published k true j = true := by
    intro j hj
    by_cases hjk : j = k
    · subst hjk
      exact Function.update_self ..
    · rw [hpo j hjk]
      exact hj
  have hback : ∀ p' i k' n', Function.update q.producers p .idle p' = .store i k' n' →
      p' ≠ p ∧ q.producers p' = .store i k' n' := by
    intro p' i k' n' he
    by_cases hpp : p' = p
    · subst hpp
      rw [Function.update_self] at he
      cases he
    · rw [Function.update_of_ne hpp] at he
      exact ⟨hpp, he⟩
  refine ⟨h.room, ⟨?_, ?_, hs.reused, ?_, ?_, ?_⟩,
    ⟨?_, ?_, ?_, h.threads.held_once, ?_, h.threads.held⟩, h.returned_own, h.returned_once,
    h.returned_all⟩
  · intro j hj
    by_cases hjk : j = k
    · exact hjk ▸ hk
    · exact hs.published_lt j ((hpo j hjk).symm.trans hj)
  · intro j hj
    obtain ⟨hjt, hjp⟩ := hs.released_ok j hj
    exact ⟨hjt, hmono j hjp⟩
  · intro j hj hr
    show (Function.update q.items (slotOf k) _ (slotOf j)).valid = true ∧
      (Function.update q.items (slotOf k) _ (slotOf j)).toWorkItem = q.pushed j
    by_cases hjk : j = k
    · subst hjk
      rw [Function.update_self]
      exact ⟨rfl, ha.eq.trans hi.symm⟩
    · have hj : q.published j = true := (hpo j hjk).symm.trans hj
      rw [Function.update_of_ne (h.slot_ne (hs.published_lt j hj) hk hr hrel hjk)]
      exact hs.full j hj hr
  · intro j hj hjp
    have hjk : j ≠ k := by
      rintro rfl
      exact absurd ((Function.update_self j true q.published).symm.trans hjp) (by simp)
    have hjp : q.published j = false := (hpo j hjk).symm.trans hjp
    show (Function.update q.items (slotOf k) _ (slotOf j)).valid = false
    rw [Function.update_of_ne (h.slot_ne hj hk (hs.released_false hjp) hrel hjk)]
    exact hs.filling j hj hjp
  · intro m hm hm' hmf
    have hne : slotOf m ≠ slotOf k := by
      intro he
      have hlow : q.head ≤ k + VALIDATION_QUEUE_SIZE := by
        by_contra hlt
        have := hs.reused k (by omega)
        simp [hrel] at this
      have hkm : k + VALIDATION_QUEUE_SIZE = m :=
        slotOf_inj q.head hlow (by omega) hm hm' ((slotOf_add k).trans he.symm)
      rcases hmf with hmf | hmf
      · omega
      · rw [show m - VALIDATION_QUEUE_SIZE = k by omega] at hmf
        exact absurd (hrel.symm.trans hmf) (by simp)
    show (Function.update q.items (slotOf k) _ (slotOf m)).valid = false
    rw [Function.update_of_ne hne]
    exact hs.free m hm hm' hmf
  · intro p'
    show ProducerOk _ (Function.update q.producers p .idle p')
    by_cases hpp : p' = p
    · subst hpp
      rw [Function.update_self]
      trivial
    · rw [Function.update_of_ne hpp]
      refine (h.threads.producers p').mono le_rfl le_rfl ?_
      intro i' k' n' hp'
      obtain ⟨hkk, hslot⟩ := h.other_slot hp hpp hp'
        (v := { q.items (slotOf k) with valid := true })
      exact ⟨hpo k' hkk, rfl, congrArg _ hslot⟩
  · intro c
    exact (h.threads.consumers c).mono le_rfl le_rfl fun j _ => ⟨rfl, fun hj => ⟨hmono j hj, rfl⟩⟩
  · intro p₁ p₂ i i' k' n₁ n₂ h₁ h₂
    exact h.threads.storing_once p₁ p₂ i i' k' n₁ n₂ (hback _ _ _ _ h₁).2 (hback _ _ _ _ h₂).2
  · intro j hj
    by_cases hjk : j = k
    · subst hjk
      exact .inl (Function.update_self ..)
    · rcases h.threads.storing j hj with hjp | ⟨p', n', hp'⟩
      · exact .inl (hmono j hjp)
      · refine .inr ⟨p', n', ?_⟩
        have hpp : p' ≠ p := by
          rintro rfl
          rw [hp] at hp'
          cases hp'
          exact hjk rfl
        exact (Function.update_of_ne hpp _ _).trans hp'

/-- The exchange of a pop that succeeds: the position `tail` becomes the consumer's. -/
theorem Inv.casTail (h : Inv q) {c : Nat} (hc : q.consumers c = .gotHead q.tail) :
    Inv { q.setConsumer c (.claimed q.tail) with tail := q.tail + 1 } := by
  have hok := h.threads.consumers c
  rw [hc] at hok
  have hlt : q.tail < q.head := hok.1
  have hs := h.slots
  have hrel : q.released q.tail = false := by
    by_contra hr
    have := (hs.released_ok q.tail (by simpa using hr)).1
    omega
  have hholds : ∀ c' k, (Function.update q.consumers c (.claimed q.tail) c').Holds k →
      (c' = c ∧ k = q.tail) ∨ ((q.consumers c').Holds k ∧ k < q.tail) := by
    intro c' k hk
    by_cases hcc : c' = c
    · subst hcc
      rw [Function.update_self] at hk
      exact .inl ⟨rfl, Eq.symm hk⟩
    · rw [Function.update_of_ne hcc] at hk
      exact .inr ⟨hk, ((h.threads.consumers c').of_holds hk).1⟩
  refine ⟨⟨hlt, ?_⟩, ⟨hs.published_lt, ?_, hs.reused, hs.full, hs.filling, hs.free⟩,
    ⟨?_, ?_, h.threads.storing_once, ?_, h.threads.storing, ?_⟩, h.returned_own, h.returned_once,
    h.returned_all⟩
  · show q.head ≤ q.tail + 1 + VALIDATION_QUEUE_SIZE
    have := h.room.2
    omega
  · intro k hk
    obtain ⟨hkt, hkp⟩ := hs.released_ok k hk
    exact ⟨Nat.lt_succ_of_lt hkt, hkp⟩
  · intro p
    exact (h.threads.producers p).mono le_rfl (Nat.le_succ _) fun _ _ _ _ => ⟨rfl, rfl, rfl⟩
  · intro c'
    show ConsumerOk _ (Function.update q.consumers c (.claimed q.tail) c')
    by_cases hcc : c' = c
    · subst hcc
      rw [Function.update_self]
      exact ⟨Nat.lt_succ_self _, hrel⟩
    · rw [Function.update_of_ne hcc]
      exact (h.threads.consumers c').mono le_rfl (Nat.le_succ _)
        fun _ _ => ⟨rfl, fun hp => ⟨hp, rfl⟩⟩
  · intro c₁ c₂ k h₁ h₂
    rcases hholds c₁ k h₁ with ⟨rfl, hk₁⟩ | ⟨h₁, hk₁⟩ <;>
      rcases hholds c₂ k h₂ with ⟨rfl, hk₂⟩ | ⟨h₂, hk₂⟩
    · rfl
    · omega
    · omega
    · exact h.threads.held_once c₁ c₂ k h₁ h₂
  · intro k hk
    rcases Nat.lt_succ_iff_lt_or_eq.mp hk with hkt | rfl
    · rcases h.threads.held k hkt with hr | ⟨c', hc'⟩
      · exact .inl hr
      · refine .inr ⟨c', ?_⟩
        have hcc : c' ≠ c := by
          rintro rfl
          rw [hc] at hc'
          exact hc'
        show (Function.update q.consumers c _ c').Holds k
        rw [Function.update_of_ne hcc]
        exact hc'
    · refine .inr ⟨c, ?_⟩
      show (Function.update q.consumers c _ c).Holds q.tail
      rw [Function.update_self]
      exact rfl

/-- The clearing of the flag, after which the pop returns its copy. -/
theorem Inv.clear (h : Inv q) {c k : Nat} {out : WorkItem} (hc : q.consumers c = .copy k 4 out) :
    Inv { q.setConsumer c .idle with
      items := Function.update q.items (slotOf k) { q.items (slotOf k) with valid := false }
      released := Function.update q.released k true
      returned := (k, out) :: q.returned } := by
  have hok := h.threads.consumers c
  rw [hc] at hok
  obtain ⟨hkt, hrel, hpub, -, ha⟩ := hok
  have hs := h.slots
  have hkh : k < q.head := hs.published_lt k hpub
  have hro : ∀ j, j ≠ k → Function.update q.released k true j = q.released j :=
    fun j hj => Function.update_of_ne hj _ _
  have hmono : ∀ j, q.released j = true → Function.update q.released k true j = true := by
    intro j hj
    by_cases hjk : j = k
    · subst hjk
      exact Function.update_self ..
    · rw [hro j hjk]
      exact hj
  have hvalid : ∀ j, (q.items j).valid = false →
      (Function.update q.items (slotOf k) { q.items (slotOf k) with valid := false } j).valid =
        false := by
    intro j hj
    by_cases hjk : j = slotOf k
    · subst hjk
      rw [Function.update_self]
    · rw [Function.update_of_ne hjk]
      exact hj
  have hitem : ∀ j, (Function.update q.items (slotOf k)
      { q.items (slotOf k) with valid := false } j).toWorkItem = (q.items j).toWorkItem := by
    intro j
    by_cases hjk : j = slotOf k
    · subst hjk
      rw [Function.update_self]
    · rw [Function.update_of_ne hjk]
  have hback : ∀ c' j, (Function.update q.consumers c .idle c').Holds j →
      c' ≠ c ∧ (q.consumers c').Holds j := by
    intro c' j hj
    by_cases hcc : c' = c
    · subst hcc
      rw [Function.update_self] at hj
      exact hj.elim
    · rw [Function.update_of_ne hcc] at hj
      exact ⟨hcc, hj⟩
  have hcheld : (q.consumers c).Holds k := by
    rw [hc]
    exact rfl
  refine ⟨h.room, ⟨hs.published_lt, ?_, ?_, ?_, ?_, ?_⟩,
    ⟨?_, ?_, h.threads.storing_once, ?_, h.threads.storing, ?_⟩, ?_, ?_, ?_⟩
  · intro j hj
    by_cases hjk : j = k
    · subst hjk
      exact ⟨hkt, hpub⟩
    · exact hs.released_ok j ((hro j hjk).symm.trans hj)
  · intro j hj
    exact hmono j (hs.reused j hj)
  · intro j hj hr
    have hjk : j ≠ k := by
      rintro rfl
      exact absurd ((Function.update_self j true q.released).symm.trans hr) (by simp)
    have hr : q.released j = false := (hro j hjk).symm.trans hr
    show (Function.update q.items (slotOf k) _ (slotOf j)).valid = true ∧
      (Function.update q.items (slotOf k) _ (slotOf j)).toWorkItem = q.pushed j
    rw [Function.update_of_ne (h.slot_ne (hs.published_lt j hj) hkh hr hrel hjk)]
    exact hs.full j hj hr
  · intro j hj hjp
    exact hvalid _ (hs.filling j hj hjp)
  · intro m hm hm' hmf
    by_cases hmk : m = k + VALIDATION_QUEUE_SIZE
    · show (Function.update q.items (slotOf k) _ (slotOf m)).valid = false
      rw [hmk, slotOf_add, Function.update_self]
    · refine hvalid _ (hs.free m hm hm' ?_)
      by_cases hlt : m < VALIDATION_QUEUE_SIZE
      · exact .inl hlt
      · obtain ⟨j, rfl⟩ : ∃ j, m = j + VALIDATION_QUEUE_SIZE :=
          ⟨m - VALIDATION_QUEUE_SIZE, by omega⟩
        have hr := hmf.resolve_left hlt
        rw [Nat.add_sub_cancel] at hr ⊢
        exact .inr ((hro j (by omega)).symm.trans hr)
  · intro p
    exact (h.threads.producers p).mono le_rfl le_rfl fun _ _ _ _ => ⟨rfl, rfl, hitem _⟩
  · intro c'
    show ConsumerOk _ (Function.update q.consumers c .idle c')
    by_cases hcc : c' = c
    · subst hcc
      rw [Function.update_self]
      trivial
    · rw [Function.update_of_ne hcc]
      refine (h.threads.consumers c').mono le_rfl le_rfl fun j hj => ⟨?_, fun hp => ⟨hp, rfl⟩⟩
      refine hro j ?_
      rintro rfl
      exact hcc (h.threads.held_once c' c j hj hcheld)
  · intro c₁ c₂ j h₁ h₂
    exact h.threads.held_once c₁ c₂ j (hback c₁ j h₁).2 (hback c₂ j h₂).2
  · intro j hj
    rcases h.threads.held j hj with hr | ⟨c', hc'⟩
    · exact .inl (hmono j hr)
    · by_cases hjk : j = k
      · subst hjk
        exact .inl (Function.update_self ..)
      · refine .inr ⟨c', ?_⟩
        have hcc : c' ≠ c := by
          rintro rfl
          rw [hc] at hc'
          exact hjk (Eq.symm hc')
        show (Function.update q.consumers c _ c').Holds j
        rw [Function.update_of_ne hcc]
        exact hc'
  · intro e he
    rcases List.mem_cons.mp he with rfl | he
    · exact ⟨Function.update_self .., ha.eq⟩
    · exact ⟨hmono _ (h.returned_own e he).1, (h.returned_own e he).2⟩
  · refine List.nodup_cons.mpr ⟨?_, h.returned_once⟩
    intro hm
    obtain ⟨e, he, hek⟩ := List.mem_map.mp hm
    have := (h.returned_own e he).1
    rw [hek, hrel] at this
    cases this
  · intro j hj
    by_cases hjk : j = k
    · subst hjk
      exact List.mem_cons_self
    · exact List.mem_cons_of_mem _ (h.returned_all j ((hro j hjk).symm.trans hj))

end ValidationWorkQueue

end Perftest
