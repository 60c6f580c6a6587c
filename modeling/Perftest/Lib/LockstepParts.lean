import Perftest.Lib.Lockstep

namespace Lockstep

section Composition

variable {α μ : Type} {needs : α → List α} {C C' S S' : Script α μ} {R : α → α → Prop}

/-- Where the act of an appended script stands. -/
theorem append_eq_act {P Q : Script α μ} {a : α} (h : C ++ C' = P ++ .act a :: Q) :
    (∃ Q', C = P ++ .act a :: Q' ∧ Q = Q' ++ C') ∨ ∃ P', P = C ++ P' ∧ C' = P' ++ .act a :: Q := by
  rcases List.append_eq_append_iff.mp h with ⟨T, hP, hC'⟩ | ⟨T, hC, hQ⟩
  · exact Or.inr ⟨T, hP, hC'⟩
  · cases T with
    | nil => exact Or.inr ⟨[], by simpa using hC.symm, by simpa using hQ.symm⟩
    | cons x T =>
      cases hQ
      exact Or.inl ⟨T, hC, rfl⟩

/-- No act of the script waits for the peer. -/
def Free (needs : α → List α) (C : Script α μ) : Prop := ∀ a, .act a ∈ C → needs a = []

@[simp] theorem free_nil : Free needs ([] : Script α μ) := nofun

@[simp] theorem free_act {a : α} : Free needs (.act a :: C) ↔ needs a = [] ∧ Free needs C := by
  simp [Free]

@[simp] theorem free_exchange {m : μ} : Free needs (.exchange m :: C) ↔ Free needs C := by
  simp [Free]

@[simp] theorem free_append : Free needs (C ++ C') ↔ Free needs C ∧ Free needs C' := by
  simp only [Free, List.mem_append, or_imp, forall_and]

@[simp] theorem free_flatMap {β : Type} {l : List β} {f : β → Script α μ} :
    Free needs (l.flatMap f) ↔ ∀ x ∈ l, Free needs (f x) := by
  simp only [Free, List.mem_flatMap]
  exact ⟨fun h x hx a ha => h a ⟨x, hx, ha⟩, fun h a ⟨x, hx, ha⟩ => h x hx a ha⟩

@[simp] theorem free_ite {p : Prop} [Decidable p] :
    Free needs (if p then C else C') ↔ if p then Free needs C else Free needs C' := by
  split <;> exact Iff.rfl

theorem Fed.of_free (h : Free needs C) : Fed needs C S := by
  intro C₁ a C₂ hC b hb
  rw [h a (by rw [hC]; simp)] at hb
  cases hb

theorem Fed.append (h : Fed needs C S) (hs : Fed needs S C) (h' : Fed needs C' S')
    (hr : rounds C = rounds S) : Fed needs (C ++ C') (S ++ S') := by
  intro C₁ a C₂ he b hb
  rcases append_eq_act he with ⟨Q, hC, -⟩ | ⟨P, rfl, hC⟩
  · obtain ⟨hn, S₁, S₂, rfl, hle, hfront⟩ := h C₁ a Q hC b hb
    exact ⟨hn, S₁, S₂ ++ S', by simp, hle, hfront⟩
  · obtain ⟨hn, S₁, S₂, rfl, hle, hfront⟩ := h' P a C₂ hC b hb
    refine ⟨hn, S ++ S₁, S₂, by simp, by simp only [rounds_append]; omega, fun heq d hd e hed => ?_⟩
    rw [rounds_append, rounds_append] at heq
    rw [rounds_append] at hd
    rcases mem_indexed_append.mp hd with hd | ⟨j, hj, hd⟩
    · obtain ⟨T, U, hTU⟩ := List.append_of_mem (act_mem_of_indexed hd)
      obtain ⟨-, W, X, hWX, -, -⟩ := hs T d U hTU e hed
      rw [hWX]
      simp
    · obtain rfl : j = rounds S₁ := by omega
      exact List.mem_append_right _ (hfront (by omega) d hd e hed)

/-- Two scripts with the same exchanges, each feeding the other. -/
structure Fits (needs : α → List α) (C S : Script α μ) : Prop where
  same : exchanges C = exchanges S
  client : Fed needs C S
  server : Fed needs S C

theorem Fits.rounds_eq (h : Fits needs C S) : rounds C = rounds S := congrArg List.length h.same

theorem Fits.symm (h : Fits needs C S) : Fits needs S C := ⟨h.same.symm, h.server, h.client⟩

theorem Fits.of_free (h : exchanges C = exchanges S) (hC : Free needs C) (hS : Free needs S) :
    Fits needs C S :=
  ⟨h, Fed.of_free hC, Fed.of_free hS⟩

theorem Fits.append (h : Fits needs C S) (h' : Fits needs C' S') :
    Fits needs (C ++ C') (S ++ S') where
  same := by rw [exchanges_append, exchanges_append, h.same, h'.same]
  client := h.client.append h.server h'.client h.rounds_eq
  server := h.server.append h.client h'.server h.rounds_eq.symm

theorem Fits.flatMap {β : Type} {l : List β} {f g : β → Script α μ}
    (h : ∀ x ∈ l, Fits needs (f x) (g x)) : Fits needs (l.flatMap f) (l.flatMap g) := by
  induction l with
  | nil => exact Fits.of_free rfl free_nil free_nil
  | cons x l ih =>
    rw [List.flatMap_cons, List.flatMap_cons]
    exact (h x List.mem_cons_self).append (ih fun y hy => h y (List.mem_cons_of_mem _ hy))

/-- Two acts of each side where the second waits at most for the first of the peer. -/
theorem Fits.pair {a a' b b' : α} (ha : needs a = []) (hb : needs b = [])
    (ha' : ∀ x ∈ needs a', x = b) (hb' : ∀ x ∈ needs b', x = a) :
    Fits needs ([.act a, .act a'] : Script α μ) [.act b, .act b'] := by
  suffices h : ∀ a a' b b' : α, needs a = [] → needs b = [] → (∀ x ∈ needs a', x = b) →
      Fed needs ([.act a, .act a'] : Script α μ) [.act b, .act b'] from
    ⟨rfl, h a a' b b' ha hb ha', h b b' a a' hb ha hb'⟩
  intro a a' b b' ha hb ha' C₁ x C₂ he y hy
  have hx : x = a' ∧ C₁ = [.act a] ∨ x = a := by
    rcases C₁ with - | ⟨c, - | ⟨c', C₁⟩⟩
    · cases he
      exact Or.inr rfl
    · cases he
      exact Or.inl ⟨rfl, rfl⟩
    · simp at he
  rcases hx with ⟨rfl, rfl⟩ | rfl
  · rw [ha' y hy]
    exact ⟨hb, [], [.act b'], rfl, Nat.le_refl _, fun _ _ hd => absurd hd (List.not_mem_nil)⟩
  · rw [ha] at hy
    cases hy

theorem Fits.ite {p : Prop} [Decidable p] (h : p → Fits needs C S) (h' : ¬ p → Fits needs C' S') :
    Fits needs (if p then C else C') (if p then S else S') := by
  split
  next hp => exact h hp
  next hp => exact h' hp

/-- Acts alone, none of which waits for the peer. -/
def Quiet (needs : α → List α) (C : Script α μ) : Prop := exchanges C = [] ∧ Free needs C

@[simp] theorem quiet_nil : Quiet needs ([] : Script α μ) := ⟨rfl, free_nil⟩

@[simp] theorem quiet_act {a : α} : Quiet needs (.act a :: C) ↔ needs a = [] ∧ Quiet needs C := by
  simp only [Quiet, exchanges_act, free_act]
  exact and_left_comm

@[simp] theorem quiet_append : Quiet needs (C ++ C') ↔ Quiet needs C ∧ Quiet needs C' := by
  simp only [Quiet, exchanges_append, List.append_eq_nil_iff, free_append]
  exact and_and_and_comm

@[simp] theorem quiet_ite {p : Prop} [Decidable p] :
    Quiet needs (if p then C else C') ↔ if p then Quiet needs C else Quiet needs C' := by
  split <;> exact Iff.rfl

@[simp] theorem quiet_flatMap {β : Type} {l : List β} {f : β → Script α μ} :
    Quiet needs (l.flatMap f) ↔ ∀ x ∈ l, Quiet needs (f x) := by
  simp only [Quiet, exchanges_flatMap, List.flatMap_eq_nil_iff, free_flatMap]
  exact ⟨fun h x hx => ⟨h.1 x hx, h.2 x hx⟩,
    fun h => ⟨fun x hx => (h x hx).1, fun x hx => (h x hx).2⟩⟩

theorem Quiet.fits (hC : Quiet needs C) (hS : Quiet needs S) : Fits needs C S :=
  Fits.of_free (hC.1.trans hS.1.symm) hC.2 hS.2

theorem Fits.exchange {m : μ} : Fits needs [.exchange m] [.exchange m] :=
  Fits.of_free rfl (by simp) (by simp)

/-- In front of an act `a` of the one side stands an exchange, and in front of that exchange what
`R` asks of the other. -/
def After (R : α → α → Prop) (C S : Script α μ) : Prop :=
  ∀ k a, (k, a) ∈ indexed 0 C → ∀ b, R a b → ∃ j < k, (j, b) ∈ indexed 0 S

theorem After.of_none (h : ∀ a b, .act a ∈ C → ¬ R a b) : After R C S :=
  fun _ a ha b hab => absurd hab (h a b (act_mem_of_indexed ha))

theorem After.append (hr : rounds C = rounds S) (h : After R C S) (h' : After R C' S') :
    After R (C ++ C') (S ++ S') := by
  intro k a ha b hab
  rcases mem_indexed_append.mp ha with ha | ⟨i, hk, ha⟩
  · obtain ⟨j, hj, hb⟩ := h k a ha b hab
    exact ⟨j, hj, mem_indexed_append.mpr (Or.inl hb)⟩
  · obtain ⟨j, hj, hb⟩ := h' i a ha b hab
    exact ⟨rounds S + j, by omega, mem_indexed_append.mpr (Or.inr ⟨j, rfl, hb⟩)⟩

/-- What the second parts ask for may stand in the first parts, in front of their last exchange. -/
theorem After.append_front (h : After R C S)
    (h' : ∀ a b, .act a ∈ C' → R a b → ∃ j < rounds C, (j, b) ∈ indexed 0 S) :
    After R (C ++ C') (S ++ S') := by
  intro k a ha b hab
  rcases mem_indexed_append.mp ha with ha | ⟨i, hk, ha⟩
  · obtain ⟨j, hj, hb⟩ := h k a ha b hab
    exact ⟨j, hj, mem_indexed_append.mpr (Or.inl hb)⟩
  · obtain ⟨j, hj, hb⟩ := h' a b (act_mem_of_indexed ha) hab
    exact ⟨j, by omega, mem_indexed_append.mpr (Or.inl hb)⟩

theorem After.flatMap {β : Type} {l : List β} {f g : β → Script α μ}
    (hr : ∀ x ∈ l, rounds (f x) = rounds (g x)) (h : ∀ x ∈ l, After R (f x) (g x)) :
    After R (l.flatMap f) (l.flatMap g) := by
  induction l with
  | nil => exact After.of_none nofun
  | cons x l ih =>
    rw [List.flatMap_cons, List.flatMap_cons]
    exact (h x List.mem_cons_self).append (hr x List.mem_cons_self)
      (ih (fun y hy => hr y (List.mem_cons_of_mem _ hy))
        fun y hy => h y (List.mem_cons_of_mem _ hy))

theorem After.or {R' : α → α → Prop} (h : After R C S) (h' : After R' C S) :
    After (fun a b => R a b ∨ R' a b) C S :=
  fun k a ha b hab => hab.elim (h k a ha b) (h' k a ha b)

/-- What the acts behind an exchange ask for stands in front of it on the other side. -/
theorem After.exchange {m m' : μ} (hr : rounds S ≤ rounds C) (hn : ∀ a b, .act a ∈ C → ¬ R a b)
    (h : ∀ a b, .act a ∈ C' → R a b → .act b ∈ S) :
    After R (C ++ [.exchange m] ++ C') (S ++ [.exchange m'] ++ S') := by
  intro k a ha b hab
  rcases mem_indexed_append.mp ha with ha | ⟨i, rfl, hi⟩
  · have hC := act_mem_of_indexed ha
    rw [List.mem_append, List.mem_singleton] at hC
    exact absurd hab (hn a b (hC.resolve_right nofun))
  · obtain ⟨j, hj⟩ := exists_indexed_of_act_mem (n := 0) (h a b (act_mem_of_indexed hi) hab)
    have hle := (le_of_mem_indexed hj).2
    refine ⟨j, ?_, mem_indexed_append.mpr (Or.inl (mem_indexed_append.mpr (Or.inl hj)))⟩
    rw [rounds_append, rounds_exchange]
    omega

/-- A party past the exchange between two parts of its script has only acts of the second ahead. -/
theorem Party.Follows.behind {p : Party α μ} (h : p.Follows C) {C₁ C₂ : Script α μ} {m : μ}
    (he : C = C₁ ++ .exchange m :: C₂)
    (hr : rounds C₁ < rounds p.done + if p.half then 1 else 0) :
    ∀ b, Step.act b ∈ p.todo → Step.act b ∈ C₂ := by
  intro b hb
  have hs := h.split
  rw [he] at hs
  rcases List.append_eq_append_iff.mp hs with ⟨T, hT, ht⟩ | ⟨T, hT, ht⟩
  · rw [hT, rounds_append] at hr
    cases hh : p.half with
    | false =>
      rw [hh, if_neg Bool.false_ne_true] at hr
      omega
    | true =>
      obtain ⟨m', rest, hx⟩ := h.half_exchange hh
      rw [hx] at ht
      cases T with
      | nil =>
        cases ht
        rw [hx] at hb
        simpa using hb
      | cons x T =>
        cases ht
        rw [hh, if_pos rfl, rounds_exchange] at hr
        omega
  · cases T with
    | nil =>
      rw [List.nil_append] at ht
      rw [← ht] at hb
      simpa using hb
    | cons x T =>
      cases ht
      exact List.mem_append_right _ hb

theorem mem_done_of_not_mem {p : Party α μ} (h : p.Follows C) {C₁ C₂ : Script α μ} {a : α}
    (he : C = C₁ ++ C₂) (ha : Step.act a ∈ p.done) (hn : Step.act a ∉ C₁) :
    rounds C₁ ≤ rounds p.done := by
  have hs := h.split
  rw [he] at hs
  rcases List.append_eq_append_iff.mp hs with ⟨T, hT, -⟩ | ⟨T, hT, -⟩
  · exact absurd (hT ▸ List.mem_append_left T ha) hn
  · rw [hT, rounds_append]
    omega

variable [DecidableEq α] [DecidableEq μ] {s : State α μ} {a b : α}

/-- What `R` asks for is done by the server before the client's act, in every order of actions. -/
theorem Reachable.server_after (h : Reachable needs C S s) (hR : After R C S)
    (ha : Step.act a ∈ s.client.done) (hab : R a b) : Step.act b ∈ s.server.done := by
  have hi := Inv.of_reachable h
  obtain ⟨k, hk⟩ := exists_indexed_of_act_mem (n := 0) ha
  have hC : (k, a) ∈ indexed 0 C := by
    rw [← hi.client.split]
    exact mem_indexed_append.mpr (Or.inl hk)
  obtain ⟨j, hj, hb⟩ := hR k a hC b hab
  exact hi.server_before hk hb hj

theorem Reachable.client_after (h : Reachable needs C S s) (hR : After R S C)
    (ha : Step.act a ∈ s.server.done) (hab : R a b) : Step.act b ∈ s.client.done := by
  have hi := Inv.of_reachable h
  obtain ⟨k, hk⟩ := exists_indexed_of_act_mem (n := 0) ha
  have hS : (k, a) ∈ indexed 0 S := by
    rw [← hi.server.split]
    exact mem_indexed_append.mpr (Or.inl hk)
  obtain ⟨j, hj, hb⟩ := hR k a hS b hab
  exact hi.client_before hk hb hj

/-- Once the client has done `a`, which comes behind an exchange, the server has only acts ahead
that come behind that exchange. -/
theorem Reachable.server_behind (h : Reachable needs C S s) {C₁ C₂ S₁ S₂ : Script α μ} {m : μ}
    (hC : C = C₁ ++ C₂) (hS : S = S₁ ++ .exchange m :: S₂) (hr : rounds C₁ = rounds S₁ + 1)
    (ha : Step.act a ∈ s.client.done) (hn : Step.act a ∉ C₁) :
    ∀ b, Step.act b ∈ s.server.todo → Step.act b ∈ S₂ := by
  have hi := Inv.of_reachable h
  have hle := mem_done_of_not_mem hi.client hC ha hn
  have hrounds := hi.rounds_le.1
  exact hi.server.behind hS (by omega)

theorem Reachable.client_behind (h : Reachable needs C S s) {C₁ C₂ S₁ S₂ : Script α μ} {m : μ}
    (hC : C = C₁ ++ .exchange m :: C₂) (hS : S = S₁ ++ S₂) (hr : rounds S₁ = rounds C₁ + 1)
    (ha : Step.act a ∈ s.server.done) (hn : Step.act a ∉ S₁) :
    ∀ b, Step.act b ∈ s.client.todo → Step.act b ∈ C₂ := by
  have hi := Inv.of_reachable h
  have hle := mem_done_of_not_mem hi.server hS ha hn
  have hrounds := hi.rounds_le.2
  exact hi.client.behind hC (by omega)

end Composition

end Lockstep
