import Mathlib.Logic.Relation
import Mathlib.Tactic

namespace Transition

variable {σ : Type*}

/-- The states of the runs of `step` that start in an initial state. -/
def Reachable (init : σ → Prop) (step : σ → σ → Prop) (s : σ) : Prop :=
  ∃ s₀, init s₀ ∧ Relation.ReflTransGen step s₀ s

variable {init : σ → Prop} {step : σ → σ → Prop}

theorem Reachable.of_init {s : σ} (h : init s) : Reachable init step s :=
  ⟨s, h, Relation.ReflTransGen.refl⟩

theorem Reachable.tail {s t : σ} (h : Reachable init step s) (hs : step s t) :
    Reachable init step t := by
  obtain ⟨s₀, h₀, hr⟩ := h
  exact ⟨s₀, h₀, hr.tail hs⟩

/-- What holds initially and is kept by every step holds in every reachable state. -/
theorem Reachable.invariant {P : σ → Prop} (h₀ : ∀ s, init s → P s)
    (hp : ∀ s t, P s → step s t → P t) {s : σ} (h : Reachable init step s) : P s := by
  obtain ⟨s₀, hi, hr⟩ := h
  induction hr with
  | refl => exact h₀ _ hi
  | tail _ hs ih => exact hp _ _ ih hs

/-- Parts of a state that can each go from `a` to `e` on their own, under the invariant `P`, can all
go there one after the other. -/
theorem Reachable.exists_each {β : Type*} {P : σ → Prop} {f : σ → Nat → β} {a e : β} {N : Nat}
    (hstep : ∀ t n, n < N → P t → f t n = a →
      ∃ u, step t u ∧ P u ∧ f u = Function.update (f t) n e)
    {s : σ} (h : Reachable init step s) (hp : P s) (hs : ∀ n < N, f s n = a) :
    ∃ t, Reachable init step t ∧ P t ∧ ∀ n < N, f t n = e := by
  suffices h : ∀ n, n ≤ N → ∃ t, Reachable init step t ∧ P t ∧ (∀ m < n, f t m = e) ∧
      ∀ m, n ≤ m → f t m = f s m by
    obtain ⟨t, hr, hpt, he, -⟩ := h N (le_refl N)
    exact ⟨t, hr, hpt, he⟩
  intro n hn
  induction n with
  | zero => exact ⟨s, h, hp, fun m hm => absurd hm (Nat.not_lt_zero m), fun _ _ => rfl⟩
  | succ n ih =>
    obtain ⟨t, hr, hpt, he, ht⟩ := ih (Nat.le_of_succ_le hn)
    obtain ⟨u, hu, hpu, hpart⟩ := hstep t n hn hpt (by rw [ht n (le_refl n), hs n hn])
    refine ⟨u, hr.tail hu, hpu, fun m hm => ?_, fun m hm => ?_⟩
    · rw [hpart]
      by_cases hmn : m = n
      · rw [hmn, Function.update_self]
      · rw [Function.update_of_ne hmn]
        exact he m (by omega)
    · rw [hpart, Function.update_of_ne (by omega)]
      exact ht m (by omega)

/-- From a state with the invariant `P` a goal is reached, when every such state that is no goal
reaches one with a smaller measure. -/
theorem exists_goal_of_measure {P G : σ → Prop} (m : σ → Nat)
    (hp : ∀ s t, P s → step s t → P t)
    (hm : ∀ s, P s → ¬ G s → ∃ t, Relation.ReflTransGen step s t ∧ m t < m s) {s : σ} (h : P s) :
    ∃ t, Relation.ReflTransGen step s t ∧ G t := by
  induction hn : m s using Nat.strong_induction_on generalizing s with
  | _ n ih =>
    by_cases hg : G s
    · exact ⟨s, .refl, hg⟩
    obtain ⟨t, hr, hlt⟩ := hm s h hg
    have ht : P t := by
      clear hlt
      induction hr with
      | refl => exact h
      | tail _ hs ihp => exact hp _ _ ihp hs
    obtain ⟨u, hu, hgu⟩ := ih (m t) (hn ▸ hlt) ht rfl
    exact ⟨u, hr.trans hu, hgu⟩

section Histories

variable {α : Type*} {P Q : List α → α → Prop}

/-- `P` holds of every element of a sequence, behind the elements in front of it. -/
def AtEach (P : List α → α → Prop) (as : List α) : Prop :=
  ∀ pre a post, as = pre ++ a :: post → P pre a

theorem atEach_nil : AtEach P [] := by
  intro pre a post h
  cases pre <;> cases h

theorem AtEach.front {as bs : List α} (h : AtEach P (as ++ bs)) : AtEach P as := by
  intro pre a post he
  apply h pre a (post ++ bs)
  rw [he, List.append_assoc, List.cons_append]

theorem atEach_concat {as : List α} {a : α} :
    AtEach P (as ++ [a]) ↔ AtEach P as ∧ P as a := by
  constructor
  · intro h
    exact ⟨h.front, h as a [] rfl⟩
  · rintro ⟨h, ha⟩ pre b post he
    rcases List.eq_nil_or_concat post with rfl | ⟨post', c, rfl⟩
    · obtain ⟨rfl, hb⟩ := List.append_inj' he rfl
      cases hb
      exact ha
    · have he' : as ++ [a] = (pre ++ b :: post') ++ [c] := by
        rw [he, List.concat_eq_append, List.append_assoc, List.cons_append]
      obtain ⟨rfl, -⟩ := List.append_inj' he' rfl
      exact h pre b post' rfl

/-- Two statements agree on a sequence if each agrees with the other behind elements that meet the
second. -/
theorem atEach_iff {as : List α}
    (h : ∀ pre a post, as = pre ++ a :: post → AtEach Q pre → (P pre a ↔ Q pre a)) :
    AtEach P as ↔ AtEach Q as := by
  induction as using List.reverseRecOn with
  | nil => exact ⟨fun _ => atEach_nil, fun _ => atEach_nil⟩
  | append_singleton as a ih =>
    have hih := ih fun pre b post he => h pre b (post ++ [a]) (by
      rw [he, List.append_assoc, List.cons_append])
    rw [atEach_concat, atEach_concat, hih]
    constructor
    · rintro ⟨hq, hp⟩
      exact ⟨hq, (h as a [] rfl hq).mp hp⟩
    · rintro ⟨hq, hp⟩
      exact ⟨hq, (h as a [] rfl hq).mpr hp⟩

end Histories

section Labelled

variable {α : Type*} {act : α → σ → Option σ}

/-- The steps of a machine whose action `a` takes `s` to `act a s`, where it is enabled. -/
def stepOf (act : α → σ → Option σ) (s t : σ) : Prop := ∃ a, act a s = some t

/-- The actions `as` one after the other. -/
def run (act : α → σ → Option σ) (as : List α) (s : σ) : Option σ := as.foldlM (fun s a => act a s) s

/-- The machine whose actions are taken only where `ok` allows them. -/
def guarded (ok : α → σ → Bool) (act : α → σ → Option σ) (a : α) (s : σ) : Option σ :=
  if ok a s then act a s else none

theorem guarded_eq_some {ok : α → σ → Bool} {a : α} {s t : σ} :
    guarded ok act a s = some t ↔ ok a s = true ∧ act a s = some t :=
  Option.ite_none_right_eq_some

theorem Reachable.run {as : List α} {s t : σ} (h : Reachable init (stepOf act) s)
    (hr : run act as s = some t) : Reachable init (stepOf act) t := by
  induction as generalizing s with
  | nil => exact Option.some.inj hr ▸ h
  | cons a as ih =>
    rw [Transition.run, List.foldlM_cons] at hr
    obtain ⟨u, hu, hr⟩ := Option.bind_eq_some_iff.mp hr
    exact ih (h.tail ⟨a, hu⟩) hr

/-- A run from a state with the invariant `P` has at most as many steps as the measure says, where
every step lowers it. -/
theorem length_le_of_measure {P : σ → Prop} (m : σ → Nat)
    (hp : ∀ s a t, P s → act a s = some t → P t)
    (hm : ∀ s a t, P s → act a s = some t → m t < m s) {as : List α} {s t : σ} (h : P s)
    (hr : run act as s = some t) : as.length ≤ m s := by
  induction as generalizing s with
  | nil => exact Nat.zero_le _
  | cons a as ih =>
    rw [run, List.foldlM_cons] at hr
    obtain ⟨u, hu, hr⟩ := Option.bind_eq_some_iff.mp hr
    have hle := ih (hp s a u h hu) hr
    have hlt := hm s a u h hu
    rw [List.length_cons]
    omega

theorem run_cons {as : List α} {a : α} {s t : σ} (h : act a s = some t) :
    Transition.run act (a :: as) s = Transition.run act as t := by
  rw [Transition.run, List.foldlM_cons, h]
  rfl

theorem run_concat_eq_some {as : List α} {a : α} {s u : σ}
    (h : Transition.run act (as ++ [a]) s = some u) :
    ∃ t, Transition.run act as s = some t ∧ act a t = some u := by
  rw [Transition.run, List.foldlM_append] at h
  obtain ⟨t, ht, h⟩ := Option.bind_eq_some_iff.mp h
  exact ⟨t, ht, (bind_pure _).symm.trans h⟩

/-- Along a run `P` holds of all states exactly when all steps meet `Q`, where a step out of a state
with `P` leads to one with `P` exactly when it meets `Q`. -/
theorem run_holds_iff {I P : σ → Prop} {Q : σ → α → Prop} {s₀ : σ} (hi : I s₀) (hp : P s₀)
    (hI : ∀ s a t, I s → act a s = some t → I t)
    (hQ : ∀ s a t, I s → P s → act a s = some t → (P t ↔ Q s a)) {as : List α} {t : σ}
    (hr : Transition.run act as s₀ = some t) :
    (∀ pre, pre <+: as → ∀ s, Transition.run act pre s₀ = some s → P s) ↔
      AtEach (fun pre a => ∀ s, Transition.run act pre s₀ = some s → Q s a) as := by
  suffices h : I t ∧ ((∀ pre, pre <+: as → ∀ s, Transition.run act pre s₀ = some s → P s) ↔
      AtEach (fun pre a => ∀ s, Transition.run act pre s₀ = some s → Q s a) as) from h.2
  induction as using List.reverseRecOn generalizing t with
  | nil =>
    cases hr
    refine ⟨hi, fun _ => atEach_nil, fun _ pre hpre s hs => ?_⟩
    rw [List.prefix_nil.mp hpre] at hs
    cases hs
    exact hp
  | append_singleton as a ih =>
    obtain ⟨u, hu, ha⟩ := run_concat_eq_some hr
    obtain ⟨hiu, hih⟩ := ih hu
    refine ⟨hI u a t hiu ha, ?_⟩
    have hsplit : (∀ pre, pre <+: as ++ [a] → ∀ s, Transition.run act pre s₀ = some s → P s) ↔
        (∀ pre, pre <+: as → ∀ s, Transition.run act pre s₀ = some s → P s) ∧ P t := by
      constructor
      · intro h
        exact ⟨fun pre hpre => h pre (hpre.trans (List.prefix_append _ _)),
          h _ (List.prefix_refl _) t hr⟩
      · rintro ⟨h, ht⟩ pre hpre s hs
        rcases List.prefix_concat_iff.mp hpre with rfl | hpre
        · exact Option.some.inj (hr.symm.trans hs) ▸ ht
        · exact h pre hpre s hs
    have hlast : (∀ s, Transition.run act as s₀ = some s → Q s a) ↔ Q u a := by
      constructor
      · intro h
        exact h u hu
      · intro h s hs
        exact Option.some.inj (hu.symm.trans hs) ▸ h
    rw [hsplit, atEach_concat, ← hih, hlast]
    refine and_congr_right fun hall => ?_
    exact hQ u a t hiu (hall as (List.prefix_refl _) u hu) ha

/-- A run of the guarded machine is one of the machine, and meets the guard at each step. -/
theorem atEach_of_guarded {ok : α → σ → Bool} {as : List α} {s t : σ}
    (h : Transition.run (guarded ok act) as s = some t) :
    Transition.run act as s = some t ∧
      AtEach (fun pre a => ∀ u, Transition.run act pre s = some u → ok a u = true) as := by
  induction as using List.reverseRecOn generalizing t with
  | nil => exact ⟨h, atEach_nil⟩
  | append_singleton as a ih =>
    obtain ⟨u, hu, ha⟩ := run_concat_eq_some h
    obtain ⟨hok, ha⟩ := guarded_eq_some.mp ha
    obtain ⟨hrun, hat⟩ := ih hu
    refine ⟨?_, atEach_concat.mpr ⟨hat, fun v hv => ?_⟩⟩
    · rw [Transition.run, List.foldlM_append]
      exact Option.bind_eq_some_iff.mpr ⟨u, hrun, (bind_pure _).trans ha⟩
    · obtain rfl := Option.some.inj (hrun.symm.trans hv)
      exact hok

/-- A run that ends in a state with `p` shows that such a state is reachable. -/
theorem exists_of_run (init : σ → Prop) (act : α → σ → Option σ) (as : List α) (s : σ)
    (p : σ → Bool) (hi : init s) (hr : (run act as s).any p = true) :
    ∃ t, Reachable init (stepOf act) t ∧ p t = true := by
  obtain ⟨t, ht, hp⟩ := (Option.any_eq_true p _).mp hr
  exact ⟨t, (Reachable.of_init hi).run ht, hp⟩

end Labelled

end Transition
