import Mathlib.Tactic

namespace Custody

/-- A resource is acquired, or handed back. -/
inductive Event (R : Type) where
  | acquire (r : R)
  | release (r : R)
deriving DecidableEq, Repr

variable {R : Type} [DecidableEq R] (needs : R → R → Bool)

/-- The resources held after one event; `needs s r` says that `s` was made from `r`. Only what is
held and what nothing else that is held was made from can be released. -/
def step (held : List R) : Event R → Option (List R)
  | .acquire r => if r ∈ held then none else some (held ++ [r])
  | .release r => if r ∈ held ∧ ∀ s ∈ held, needs s r = false then some (held.erase r) else none

def run : List R → List (Event R) → Option (List R)
  | held, [] => some held
  | held, e :: es => (step needs held e).bind fun held => run held es

/-- Every resource that is acquired is released once and nothing else is, each one after those that
were made from it. -/
def AllReturned (trace : List (Event R)) : Prop := run needs [] trace = some []

instance (trace : List (Event R)) : Decidable (AllReturned needs trace) :=
  inferInstanceAs (Decidable (_ = _))

variable {needs}

theorem run_append {held held' : List R} {es : List (Event R)} (h : run needs held es = some held')
    (es' : List (Event R)) : run needs held (es ++ es') = run needs held' es' := by
  induction es generalizing held with
  | nil =>
    cases Option.some.inj h
    rfl
  | cons e es ih =>
    obtain ⟨mid, hm, hr⟩ := Option.bind_eq_some_iff.mp h
    rw [List.cons_append, run, hm]
    exact ih hr

theorem step_acquire {held : List R} {r : R} (h : r ∉ held) :
    step needs held (.acquire r) = some (held ++ [r]) := if_neg h

/-- A release in the middle of what is held. -/
theorem step_release {below above : List R} {r : R} (hr : r ∉ below)
    (hn : ∀ s ∈ below ++ r :: above, needs s r = false) :
    step needs (below ++ r :: above) (.release r) = some (below ++ above) := by
  rw [step, if_pos ⟨List.mem_append_right _ List.mem_cons_self, hn⟩, List.erase_append_right _ hr,
    List.erase_cons_head]

/-- The resources on top are released in the order in which they were acquired. -/
theorem run_release_block {below block : List R} (hd : ∀ r ∈ block, r ∉ below) (hb : block.Nodup)
    (hn : ∀ r ∈ block, ∀ s ∈ below ++ block, needs s r = false) :
    run needs (below ++ block) (block.map .release) = some below := by
  induction block with
  | nil => rw [List.append_nil, List.map_nil, run]
  | cons r block ih =>
    rw [List.map_cons, run, step_release (hd r List.mem_cons_self) (hn r List.mem_cons_self)]
    apply ih (fun s hs => hd s (List.mem_cons_of_mem _ hs)) (List.nodup_cons.mp hb).2
    intro s hs t ht
    refine hn s (List.mem_cons_of_mem _ hs) t ?_
    rcases List.mem_append.mp ht with h | h
    · exact List.mem_append_left _ h
    · exact List.mem_append_right _ (List.mem_cons_of_mem _ h)

section Levels

variable {rank : R → Nat}

omit [DecidableEq R]

/-- What is held lies below a level. -/
def Below (rank : R → Nat) (k : Nat) (held : List R) : Prop := ∀ s ∈ held, rank s < k

theorem Below.nil (k : Nat) : Below rank k [] := by
  intro s hs
  cases hs

theorem Below.append {j k : Nat} {held block : List R} (h : Below rank j held) (hjk : j ≤ k)
    (hb : Below rank k block) : Below rank k (held ++ block) := by
  intro s hs
  rcases List.mem_append.mp hs with h' | h'
  · exact lt_of_lt_of_le (h s h') hjk
  · exact hb s h'

theorem Below.not_mem {k : Nat} {held : List R} {r : R} (h : Below rank k held)
    (hr : k ≤ rank r) : r ∉ held := by
  intro hmem
  have hlt := h r hmem
  omega

variable [DecidableEq R]

/-- A whole level is released from the top, when a resource is only made from lower ones. -/
theorem Below.run_release {k : Nat} {held block : List R}
    (hneeds : ∀ s r, needs s r = true → rank r < rank s) (h : Below rank k held)
    (hk : ∀ r ∈ block, rank r = k) (hb : block.Nodup) :
    run needs (held ++ block) (block.map .release) = some held := by
  apply run_release_block
  · intro r hr hmem
    exact absurd (h r hmem) (by rw [hk r hr]; omega)
  · exact hb
  · intro r hr s hs
    cases hsr : needs s r with
    | false => rfl
    | true =>
      have hlt := hneeds s r hsr
      rw [hk r hr] at hlt
      rcases List.mem_append.mp hs with h' | h'
      · exact absurd (h s h') (by omega)
      · exact absurd (hk s h') (by omega)

/-- A level and, behind it, everything below it. -/
theorem Below.unwind {k : Nat} {held block rest : List R}
    (hneeds : ∀ s r, needs s r = true → rank r < rank s) (h : Below rank k held)
    (hk : ∀ r ∈ block, rank r = k) (hb : block.Nodup)
    (hrest : run needs held (rest.map .release) = some []) :
    run needs (held ++ block) ((block ++ rest).map .release) = some [] := by
  rw [List.map_append, run_append (h.run_release hneeds hk hb)]
  exact hrest

end Levels

/-- No resource is held twice. -/
theorem nodup_of_run {held held' : List R} {es : List (Event R)} (hd : held.Nodup)
    (h : run needs held es = some held') : held'.Nodup := by
  induction es generalizing held with
  | nil =>
    cases Option.some.inj h
    exact hd
  | cons e es ih =>
    obtain ⟨mid, hm, hrest⟩ := Option.bind_eq_some_iff.mp h
    refine ih ?_ hrest
    cases e with
    | acquire r =>
      rw [step] at hm
      split at hm
      next => cases hm
      next hr =>
        cases Option.some.inj hm
        exact List.nodup_append.mpr ⟨hd, List.nodup_singleton r, fun s hs t ht => by
          rw [List.mem_singleton.mp ht]
          exact fun h => hr (h ▸ hs)⟩
    | release r =>
      rw [step] at hm
      split at hm
      next =>
        cases Option.some.inj hm
        exact hd.erase r
      next => cases hm

/-- A run of releases that leaves nothing names every resource as often as it was held. -/
theorem perm_of_run_release {held rs : List R}
    (h : run needs held (rs.map .release) = some []) : rs.Perm held := by
  induction rs generalizing held with
  | nil =>
    cases Option.some.inj h
    exact List.Perm.nil
  | cons r rs ih =>
    obtain ⟨mid, hm, hrest⟩ := Option.bind_eq_some_iff.mp h
    rw [step] at hm
    split at hm
    next hr =>
      cases Option.some.inj hm
      exact ((ih hrest).cons r).trans (List.perm_cons_erase hr.1).symm
    next => cases hm

/-- A release waits for those of the resources made from it. -/
theorem mem_of_run_release_needs {held held' rs rest : List R} {r s : R}
    (h : run needs held ((rs ++ r :: rest).map .release) = some held') (hs : s ∈ held)
    (hsr : needs s r = true) : s ∈ rs := by
  induction rs generalizing held with
  | nil =>
    obtain ⟨mid, hm, -⟩ := Option.bind_eq_some_iff.mp h
    rw [step] at hm
    split at hm
    next hok =>
      rw [hok.2 s hs] at hsr
      cases hsr
    next => cases hm
  | cons t rs ih =>
    by_cases hst : s = t
    · rw [hst]
      exact List.mem_cons_self
    · obtain ⟨mid, hm, hrest⟩ := Option.bind_eq_some_iff.mp h
      rw [step] at hm
      split at hm
      next =>
        cases Option.some.inj hm
        exact List.mem_cons_of_mem _ (ih hrest ((List.mem_erase_of_ne hst).mpr hs))
      next => cases hm

section Tiers

variable {order : R → Nat}

omit [DecidableEq R]

/-- Different resources, in tiers from `a` on and below `b`, the lower ones first. -/
structure Tiered (order : R → Nat) (a b : Nat) (rs : List R) : Prop where
  nodup : rs.Nodup
  sorted : rs.Pairwise fun r s => order r ≤ order s
  bounds : ∀ r ∈ rs, a ≤ order r ∧ order r < b

theorem Tiered.nil (a b : Nat) : Tiered order a b [] :=
  ⟨List.nodup_nil, List.Pairwise.nil, fun _ hr => absurd hr List.not_mem_nil⟩

theorem Tiered.tier {k : Nat} {rs : List R} (hd : rs.Nodup) (hk : ∀ r ∈ rs, order r = k) :
    Tiered order k (k + 1) rs := by
  refine ⟨hd, ?_, ?_⟩
  · refine List.Pairwise.imp_of_mem ?_ hd
    intro r s hr hs _
    rw [hk r hr, hk s hs]
  · intro r hr
    rw [hk r hr]
    exact ⟨le_refl k, Nat.lt_succ_self k⟩

theorem Tiered.append {a b c : Nat} {rs ss : List R} (h : Tiered order a b rs)
    (h' : Tiered order b c ss) (hab : a ≤ b) (hbc : b ≤ c) : Tiered order a c (rs ++ ss) := by
  refine ⟨?_, ?_, ?_⟩
  · refine List.nodup_append.mpr ⟨h.nodup, h'.nodup, fun r hr s hs heq => ?_⟩
    have hlt := (h.bounds r hr).2
    have hle := (h'.bounds s hs).1
    rw [heq] at hlt
    omega
  · refine List.pairwise_append.mpr ⟨h.sorted, h'.sorted, fun r hr s hs => ?_⟩
    have hlt := (h.bounds r hr).2
    have hle := (h'.bounds s hs).1
    omega
  · intro r hr
    rcases List.mem_append.mp hr with hr | hr
    · have hb := h.bounds r hr
      exact ⟨hb.1, by omega⟩
    · have hb := h'.bounds r hr
      exact ⟨by omega, hb.2⟩

variable [DecidableEq R]

/-- All that is held is handed back, tier by tier, where a resource is made from later tiers. -/
theorem run_release_of_sorted {held rs : List R}
    (hneeds : ∀ s r, needs s r = true → order s < order r)
    (hs : rs.Pairwise fun r s => order r ≤ order s) (hp : rs.Perm held) :
    run needs held (rs.map .release) = some [] := by
  induction rs generalizing held with
  | nil =>
    rw [List.nil_perm.mp hp]
    rfl
  | cons r rs ih =>
    obtain ⟨hr, hs⟩ := List.pairwise_cons.mp hs
    have hfree : ∀ s ∈ held, needs s r = false := by
      intro s hmem
      cases h : needs s r with
      | false => rfl
      | true =>
        have hlt := hneeds s r h
        rcases List.mem_cons.mp (hp.mem_iff.mpr hmem) with rfl | hs'
        · omega
        · have hle := hr s hs'
          omega
    have hmem : r ∈ held := hp.mem_iff.mp List.mem_cons_self
    rw [List.map_cons, run, step, if_pos ⟨hmem, hfree⟩, Option.bind_some]
    exact ih hs (List.cons_perm_iff_perm_erase.mp hp).2

theorem run_release_sorted_iff {held rs : List R}
    (hneeds : ∀ s r, needs s r = true → order s < order r)
    (hs : rs.Pairwise fun r s => order r ≤ order s) :
    run needs held (rs.map .release) = some [] ↔ rs.Perm held :=
  ⟨perm_of_run_release, run_release_of_sorted hneeds hs⟩

/-- Acquiring what one has not got. -/
theorem run_acquires {held rs : List R} (h : (held ++ rs).Nodup) :
    run needs held (rs.map .acquire) = some (held ++ rs) := by
  induction rs generalizing held with
  | nil =>
    rw [List.append_nil]
    rfl
  | cons r rs ih =>
    have hr : r ∉ held := fun hmem =>
      (List.nodup_append.mp h).2.2 r hmem r List.mem_cons_self rfl
    rw [List.map_cons, run, step_acquire hr, Option.bind_some, ih]
    · rw [List.append_assoc, List.singleton_append]
    · rwa [List.append_assoc, List.singleton_append]

end Tiers

section Embedding

variable {S : Type} [DecidableEq S] {f : R → S} {needs' : S → S → Bool}

def Event.map (f : R → S) : Event R → Event S
  | .acquire r => .acquire (f r)
  | .release r => .release (f r)

/-- A history of some of the resources of a larger kind. -/
theorem run_map (hf : Function.Injective f) (hn : ∀ s r, needs' (f s) (f r) = needs s r)
    (held : List R) (es : List (Event R)) :
    run needs' (held.map f) (es.map (Event.map f)) = (run needs held es).map (List.map f) := by
  induction es generalizing held with
  | nil => rfl
  | cons e es ih =>
    have hstep : step needs' (held.map f) (e.map f) = (step needs held e).map (List.map f) := by
      cases e with
      | acquire r =>
        simp only [Event.map, step, List.mem_map_of_injective hf]
        split
        next => rfl
        next => rw [Option.map_some, List.map_append, List.map_singleton]
      | release r =>
        simp only [Event.map, step, List.mem_map_of_injective hf, List.forall_mem_map, hn]
        split
        next => rw [Option.map_some, List.map_erase hf]
        next => rfl
    rw [List.map_cons, run, hstep, run]
    cases step needs held e with
    | none => rfl
    | some held => exact ih held

end Embedding

section Programs

variable {ε α β : Type}

/-- A program either goes on with `Q`, or stops with `E`. -/
def Ends (m : Except ε α) (Q : α → Prop) (E : ε → Prop) : Prop := match m with
  | .ok a => Q a
  | .error e => E e

variable {m : Except ε α} {Q : α → Prop} {E : ε → Prop}

theorem Ends.bind {f : α → Except ε β} {Q' : β → Prop} (h : Ends m Q E)
    (hf : ∀ a, Q a → Ends (f a) Q' E) : Ends (m >>= f) Q' E := by
  cases m with
  | ok a => exact hf a h
  | error e => exact h

theorem Ends.mono {Q' : α → Prop} (h : Ends m Q E) (hq : ∀ a, Q a → Q' a) : Ends m Q' E := by
  cases m with
  | ok a => exact hq a h
  | error e => exact h

theorem Ends.success (h : Ends m Q E) : Ends m Q fun _ => True := by
  cases m with
  | ok a => exact h
  | error e => trivial

theorem Ends.and {Q' : α → Prop} (h : Ends m Q E) (h' : Ends m Q' fun _ => True) :
    Ends m (fun a => Q a ∧ Q' a) fun _ => True := by
  cases m with
  | ok a => exact ⟨h, h'⟩
  | error e => trivial

theorem Ends.map {f : α → β} {Q' : β → Prop} (h : Ends m Q E) (hf : ∀ a, Q a → Q' (f a)) :
    Ends (m.map f) Q' E := by
  cases m with
  | ok a => exact hf a h
  | error e => exact h

theorem Ends.mapError {ε' : Type} {f : ε → ε'} {E' : ε' → Prop} (h : Ends m Q E)
    (hf : ∀ e, E e → E' (f e)) : Ends (m.mapError f) Q E' := by
  cases m with
  | ok a => exact h
  | error e => exact hf e h

end Programs

end Custody
