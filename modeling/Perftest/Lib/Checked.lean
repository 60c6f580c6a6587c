import Mathlib.Tactic

namespace Checked

theorem map_eq_ok {ε α β : Type} {x : Except ε α} {f : α → β} {r : β}
    (h : x.map f = .ok r) : ∃ a, x = .ok a ∧ f a = r := by
  cases x with
  | error e => cases h
  | ok a => exact ⟨a, rfl, Except.ok.inj h⟩

theorem bind_eq_ok {ε α β : Type} {x : Except ε α} {f : α → Except ε β} {r : β}
    (h : x.bind f = .ok r) : ∃ a, x = .ok a ∧ f a = .ok r := by
  cases x with
  | error e => cases h
  | ok a => exact ⟨a, rfl, h⟩

theorem ite_error_eq_ok {ε α : Type} {p : Prop} [Decidable p] {msg : ε} {a r : α}
    (h : (if p then .error msg else .ok a : Except ε α) = .ok r) : ¬ p ∧ a = r := by
  split at h
  next => cases h
  next hp => exact ⟨hp, Except.ok.inj h⟩

theorem exists_of_toOption_any {ε α : Type} {x : Except ε α} {p : α → Bool}
    (h : x.toOption.any p = true) : ∃ a, x = .ok a ∧ p a = true := by
  cases x with
  | error e => cases h
  | ok a => exact ⟨a, rfl, h⟩

/-- A list of checks, each with the message it refuses with; the first that fires decides. -/
def refuse : List (Bool × String) → Except String Unit
  | [] => .ok ()
  | (bad, msg) :: rest => if bad then .error msg else refuse rest

/-- A step of a normalisation: it refuses some values and rewrites the others. -/
structure Stage (σ : Type) where
  checks : σ → List (Bool × String) := fun _ => []
  update : σ → σ := id

variable {σ τ : Type}

def Stage.run (st : Stage σ) (s : σ) : Except String σ :=
  (refuse (st.checks s)).map fun _ => st.update s

def runAll : List (Stage σ) → σ → Except String σ
  | [], s => .ok s
  | st :: rest, s => (st.run s).bind (runAll rest)

/-- The rewriting that a sequence of stages does to the values it accepts. -/
def updates (l : List (Stage σ)) (s : σ) : σ := l.foldl (fun s st => st.update s) s

/-- No check of any stage fires on the value that the earlier stages leave. -/
def Passes : List (Stage σ) → σ → Prop
  | [], _ => True
  | st :: rest, s => (∀ c ∈ st.checks s, c.1 = false) ∧ Passes rest (st.update s)

instance Passes.decidable : (l : List (Stage σ)) → (s : σ) → Decidable (Passes l s)
  | [], _ => isTrue trivial
  | st :: rest, s =>
    match List.decidableBAll (fun c => c.1 = false) (st.checks s), decidable rest (st.update s) with
    | isTrue h, isTrue h' => isTrue ⟨h, h'⟩
    | isFalse h, _ => isFalse fun hp => h hp.1
    | _, isFalse h' => isFalse fun hp => h' hp.2

theorem refuse_eq_ok_iff (l : List (Bool × String)) :
    refuse l = .ok () ↔ ∀ c ∈ l, c.1 = false := by
  induction l with
  | nil => simp [refuse]
  | cons c l ih =>
    obtain ⟨bad, msg⟩ := c
    cases bad with
    | true => simp [refuse]
    | false => simp [refuse, ih]

theorem Stage.run_eq_ok_iff {st : Stage σ} {s t : σ} :
    st.run s = .ok t ↔ (∀ c ∈ st.checks s, c.1 = false) ∧ t = st.update s := by
  unfold Stage.run
  cases hr : refuse (st.checks s) with
  | error msg =>
    have hn : ¬ ∀ c ∈ st.checks s, c.1 = false := by
      rw [← refuse_eq_ok_iff, hr]
      exact fun h => by cases h
    exact ⟨fun h => (by cases h), fun h => absurd h.1 hn⟩
  | ok u =>
    have hp := (refuse_eq_ok_iff (st.checks s)).mp (by rw [hr])
    simp only [Except.map, Except.ok.injEq]
    exact ⟨fun h => ⟨hp, h.symm⟩, fun h => h.2.symm⟩

/-- What is accepted, and with which result. -/
theorem runAll_eq_ok_iff {l : List (Stage σ)} {s t : σ} :
    runAll l s = .ok t ↔ Passes l s ∧ t = updates l s := by
  induction l generalizing s with
  | nil =>
    simp only [runAll, Except.ok.injEq, Passes, updates, List.foldl_nil, true_and]
    exact eq_comm
  | cons st rest ih =>
    simp only [runAll, Passes, updates, List.foldl_cons]
    cases hr : st.run s with
    | error msg =>
      have hn : ¬ ∀ c ∈ st.checks s, c.1 = false := by
        intro h
        have := Stage.run_eq_ok_iff.mpr ⟨h, rfl⟩
        rw [hr] at this
        cases this
      exact ⟨fun h => (by cases h), fun h => absurd h.1.1 hn⟩
    | ok u =>
      obtain ⟨hp, rfl⟩ := Stage.run_eq_ok_iff.mp hr
      rw [Except.bind, ih]
      exact ⟨fun h => ⟨⟨hp, h.1⟩, h.2⟩, fun h => ⟨h.1.2, h.2⟩⟩

theorem Passes.append {l₁ l₂ : List (Stage σ)} {s : σ} (h : Passes (l₁ ++ l₂) s) :
    Passes l₁ s ∧ Passes l₂ (updates l₁ s) := by
  induction l₁ generalizing s with
  | nil => exact ⟨trivial, h⟩
  | cons st l₁ ih => exact ⟨⟨h.1, (ih h.2).1⟩, (ih h.2).2⟩

theorem updates_append (l₁ l₂ : List (Stage σ)) (s : σ) :
    updates (l₁ ++ l₂) s = updates l₂ (updates l₁ s) :=
  List.foldl_append

theorem updates_invariant {P : σ → Prop} {l : List (Stage σ)}
    (h : ∀ st ∈ l, ∀ s, P s → P (st.update s)) {s : σ} (hs : P s) : P (updates l s) := by
  induction l generalizing s with
  | nil => exact hs
  | cons st l ih =>
    exact ih (fun st' hst => h st' (List.mem_cons_of_mem _ hst)) (h st List.mem_cons_self s hs)

/-- The part `f` of the value follows its own rewriting, stage by stage. -/
theorem map_updates {f : σ → τ} {l : List (Stage σ × (τ → τ))}
    (h : ∀ e ∈ l, ∀ s, f (e.1.update s) = e.2 (f s)) (s : σ) :
    f (updates (l.map Prod.fst) s) = l.foldl (fun t e => e.2 t) (f s) := by
  induction l generalizing s with
  | nil => rfl
  | cons e l ih =>
    have he := h e List.mem_cons_self s
    simp only [List.map_cons, updates, List.foldl_cons] at *
    rw [ih (fun e' he' => h e' (List.mem_cons_of_mem _ he')), he]

end Checked
