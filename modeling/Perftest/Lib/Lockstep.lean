import Perftest.Lib.Transition

/-! Each party follows a script of acts and of exchanges. In an exchange the client writes a message
and then reads one, the server reads and then writes. An act may wait for acts of the peer. -/

namespace Lockstep

inductive Step (α μ : Type) where
  | act (a : α)
  | exchange (m : μ)
deriving DecidableEq, Repr

abbrev Script (α μ : Type) := List (Step α μ)

variable {α μ : Type}

def exchanges : Script α μ → List μ
  | [] => []
  | .act _ :: C => exchanges C
  | .exchange m :: C => m :: exchanges C

def rounds (C : Script α μ) : Nat := (exchanges C).length

/-- The acts of a script, each with the number of exchanges in front of it and `n` more. -/
def indexed : Nat → Script α μ → List (Nat × α)
  | _, [] => []
  | n, .act a :: C => (n, a) :: indexed n C
  | n, .exchange _ :: C => indexed (n + 1) C

/-- What a party has behind it and ahead of it, whether it is in the middle of the exchange it is
at, and the messages it has read. -/
structure Party (α μ : Type) where
  done : Script α μ
  todo : Script α μ
  half : Bool
  got : List μ
deriving DecidableEq, Repr

structure State (α μ : Type) where
  client : Party α μ
  server : Party α μ
  up : List μ
  down : List μ
deriving DecidableEq, Repr

inductive Action where
  | clientAct | clientWrite | clientRead | serverAct | serverRead | serverWrite
deriving DecidableEq, Repr

def Party.advance (p : Party α μ) (x : Step α μ) (rest : Script α μ) : Party α μ :=
  { p with done := p.done ++ [x], todo := rest, half := false }

def Party.init (C : Script α μ) : Party α μ := ⟨[], C, false, []⟩

def State.init (C S : Script α μ) : State α μ := ⟨.init C, .init S, [], []⟩

section Machine

variable [DecidableEq α] [DecidableEq μ] (needs : α → List α)

/-- The peer has done what `a` waits for. -/
def ready (peer : Party α μ) (a : α) : Bool := (needs a).all fun b => .act b ∈ peer.done

def act : Action → State α μ → Option (State α μ)
  | .clientAct, s => match s.client.todo with
    | .act a :: rest =>
      if ready needs s.server a then some { s with client := s.client.advance (.act a) rest }
      else none
    | _ => none
  | .serverAct, s => match s.server.todo with
    | .act a :: rest =>
      if ready needs s.client a then some { s with server := s.server.advance (.act a) rest }
      else none
    | _ => none
  | .clientWrite, s => match s.client.todo, s.client.half with
    | .exchange m :: _, false =>
      some { s with client := { s.client with half := true }, up := s.up ++ [m] }
    | _, _ => none
  | .serverRead, s => match s.server.todo, s.server.half, s.up with
    | .exchange _ :: _, false, m :: up =>
      some { s with server := { s.server with half := true, got := s.server.got ++ [m] }, up := up }
    | _, _, _ => none
  | .serverWrite, s => match s.server.todo, s.server.half with
    | .exchange m :: rest, true =>
      some { s with server := s.server.advance (.exchange m) rest, down := s.down ++ [m] }
    | _, _ => none
  | .clientRead, s => match s.client.todo, s.client.half, s.down with
    | .exchange x :: rest, true, m :: down =>
      some { s with client := { s.client.advance (.exchange x) rest with
                                got := s.client.got ++ [m] }, down := down }
    | _, _, _ => none

def Reachable (C S : Script α μ) : State α μ → Prop :=
  Transition.Reachable (· = State.init C S) (Transition.stepOf (act needs))

end Machine

section Scripts

variable {C C' : Script α μ} {a : α} {j k n : Nat}

@[simp] theorem exchanges_nil : exchanges ([] : Script α μ) = [] := rfl

@[simp] theorem exchanges_act : exchanges (.act a :: C) = exchanges C := rfl

@[simp] theorem exchanges_exchange {m : μ} : exchanges (.exchange m :: C) = m :: exchanges C := rfl

@[simp] theorem exchanges_append : exchanges (C ++ C') = exchanges C ++ exchanges C' := by
  induction C with
  | nil => rfl
  | cons x C ih =>
    cases x with
    | act a => exact ih
    | exchange m => simp only [List.cons_append, exchanges_exchange, ih]

theorem exchanges_flatMap {β : Type} (l : List β) (f : β → Script α μ) :
    exchanges (l.flatMap f) = l.flatMap fun x => exchanges (f x) := by
  induction l with
  | nil => rfl
  | cons x l ih => rw [List.flatMap_cons, List.flatMap_cons, exchanges_append, ih]

@[simp] theorem exchanges_ite {p : Prop} [Decidable p] :
    exchanges (if p then C else C') = if p then exchanges C else exchanges C' := apply_ite _ _ _ _

@[simp] theorem rounds_nil : rounds ([] : Script α μ) = 0 := rfl

@[simp] theorem rounds_act : rounds (.act a :: C) = rounds C := rfl

@[simp] theorem rounds_exchange {m : μ} : rounds (.exchange m :: C) = rounds C + 1 := rfl

@[simp] theorem rounds_append : rounds (C ++ C') = rounds C + rounds C' := by
  rw [rounds, exchanges_append, List.length_append, rounds, rounds]

theorem indexed_append (n : Nat) (C C' : Script α μ) :
    indexed n (C ++ C') = indexed n C ++ indexed (n + rounds C) C' := by
  induction C generalizing n with
  | nil => rfl
  | cons x C ih =>
    cases x with
    | act a => simp only [List.cons_append, indexed, ih, rounds_act]
    | exchange m =>
      simp only [List.cons_append, indexed, ih, rounds_exchange]
      rw [Nat.add_assoc, Nat.add_comm 1]

theorem le_of_mem_indexed (h : (k, a) ∈ indexed n C) : n ≤ k ∧ k ≤ n + rounds C := by
  induction C generalizing n with
  | nil => cases h
  | cons x C ih =>
    cases x with
    | act b =>
      rcases List.mem_cons.mp h with h | h
      · cases h
        exact ⟨Nat.le_refl _, Nat.le_add_right _ _⟩
      · exact ih h
    | exchange m =>
      have hb := ih h
      rw [rounds_exchange]
      omega

theorem act_mem_of_indexed (h : (k, a) ∈ indexed n C) : Step.act a ∈ C := by
  induction C generalizing n with
  | nil => cases h
  | cons x C ih =>
    cases x with
    | act b =>
      rcases List.mem_cons.mp h with h | h
      · cases h
        exact List.mem_cons_self
      · exact List.mem_cons_of_mem _ (ih h)
    | exchange m => exact List.mem_cons_of_mem _ (ih h)

theorem exists_indexed_of_act_mem (h : Step.act a ∈ C) : ∃ k, (k, a) ∈ indexed n C := by
  obtain ⟨C₁, C₂, rfl⟩ := List.append_of_mem h
  refine ⟨n + rounds C₁, ?_⟩
  rw [indexed_append]
  exact List.mem_append_right _ List.mem_cons_self

theorem mem_indexed_add (d : Nat) : (k + d, a) ∈ indexed (n + d) C ↔ (k, a) ∈ indexed n C := by
  induction C generalizing n with
  | nil => simp [indexed]
  | cons x C ih =>
    cases x with
    | act b => simp only [indexed, List.mem_cons, Prod.mk.injEq, Nat.add_right_cancel_iff, ih]
    | exchange m =>
      simp only [indexed]
      rw [Nat.add_right_comm, ih]

theorem mem_indexed_append : (k, a) ∈ indexed 0 (C ++ C') ↔
    (k, a) ∈ indexed 0 C ∨ ∃ j, k = rounds C + j ∧ (j, a) ∈ indexed 0 C' := by
  rw [indexed_append, List.mem_append]
  refine or_congr_right ?_
  constructor
  · intro h
    have hk := (le_of_mem_indexed h).1
    refine ⟨k - rounds C, by omega, ?_⟩
    rw [← mem_indexed_add (rounds C), Nat.sub_add_cancel (by omega)]
    exact h
  · rintro ⟨j, rfl, h⟩
    rw [Nat.add_comm (rounds C) j]
    exact (mem_indexed_add (rounds C)).mpr h

/-- An act with fewer exchanges in front of it than `C` has is an act of `C`. -/
theorem mem_indexed_front (h : (k, a) ∈ indexed 0 (C ++ C')) (hk : k < rounds C) :
    (k, a) ∈ indexed 0 C := by
  rcases mem_indexed_append.mp h with h | ⟨j, rfl, -⟩
  · exact h
  · omega

end Scripts

section Parties

variable {C S : Script α μ} {s : State α μ} {p : Party α μ} {rest : Script α μ}

/-- The messages a client has written. -/
def Party.sent (p : Party α μ) : List μ :=
  exchanges p.done ++ if p.half then (exchanges p.todo).take 1 else []

/-- A party that follows the script `C`. -/
structure Party.Follows (p : Party α μ) (C : Script α μ) : Prop where
  split : p.done ++ p.todo = C
  half_exchange : p.half = true → ∃ m rest, p.todo = .exchange m :: rest

/-- Every message written is read in order or on its way, one for each exchange behind. -/
structure Inv (C S : Script α μ) (s : State α μ) : Prop where
  client : s.client.Follows C
  server : s.server.Follows S
  up : s.server.got ++ s.up = s.client.sent
  down : s.client.got ++ s.down = exchanges s.server.done
  client_got : s.client.got.length = rounds s.client.done
  server_got : s.server.got.length = rounds s.server.done + if s.server.half then 1 else 0

theorem Party.Follows.advance (h : p.Follows C) {x : Step α μ} (ht : p.todo = x :: rest) :
    (p.advance x rest).Follows C := by
  refine ⟨?_, nofun⟩
  rw [← h.split, ht]
  simp [Party.advance]

theorem Party.Follows.half_act (h : p.Follows C) {a : α} (ht : p.todo = .act a :: rest) :
    p.half = false := by
  cases hp : p.half with
  | false => rfl
  | true =>
    obtain ⟨m, r, hm⟩ := h.half_exchange hp
    rw [ht] at hm
    cases hm

theorem Party.Follows.half_nil (h : p.Follows C) (ht : p.todo = []) : p.half = false := by
  cases hp : p.half with
  | false => rfl
  | true =>
    obtain ⟨m, r, hm⟩ := h.half_exchange hp
    rw [ht] at hm
    cases hm

theorem Party.Follows.sent_advance_act (h : p.Follows C) {a : α} (ht : p.todo = .act a :: rest) :
    (p.advance (.act a) rest).sent = p.sent := by
  simp [Party.sent, Party.advance, h.half_act ht]

theorem Party.sent_advance_exchange {m : μ} (ht : p.todo = .exchange m :: rest)
    (hh : p.half = true) : (p.advance (.exchange m) rest).sent = p.sent := by
  simp [Party.sent, Party.advance, hh, ht]

theorem Inv.init (C S : Script α μ) : Inv C S (.init C S) where
  client := ⟨rfl, nofun⟩
  server := ⟨rfl, nofun⟩
  up := rfl
  down := rfl
  client_got := rfl
  server_got := rfl

/-- The client is never more than one exchange behind the server, and never ahead of it. -/
theorem Inv.rounds_le (h : Inv C S s) : rounds s.client.done ≤ rounds s.server.done ∧
    rounds s.server.done ≤ rounds s.client.done + if s.client.half then 1 else 0 := by
  have hd := congrArg List.length h.down
  have hu := congrArg List.length h.up
  have hc := h.client_got
  have hs := h.server_got
  have ht : s.client.sent.length ≤ rounds s.client.done + if s.client.half then 1 else 0 := by
    rw [Party.sent, List.length_append, ← rounds]
    split
    · rw [List.length_take]
      omega
    · exact Nat.le_refl _
  rw [List.length_append] at hd hu
  rw [rounds] at hc hs ⊢
  rw [rounds] at ht ⊢
  constructor
  · omega
  · omega

/-- Past an act of the client with `k` exchanges in front, the server is past all its acts with
fewer. -/
theorem Inv.server_before (h : Inv C S s) {a b : α} {j k : Nat}
    (ha : (k, a) ∈ indexed 0 s.client.done) (hb : (j, b) ∈ indexed 0 S) (hjk : j < k) :
    Step.act b ∈ s.server.done := by
  have hk := (le_of_mem_indexed ha).2
  have hr := h.rounds_le.1
  rw [← h.server.split] at hb
  exact act_mem_of_indexed (mem_indexed_front hb (by omega))

theorem Inv.client_before (h : Inv C S s) {a b : α} {j k : Nat}
    (ha : (k, a) ∈ indexed 0 s.server.done) (hb : (j, b) ∈ indexed 0 C) (hjk : j < k) :
    Step.act b ∈ s.client.done := by
  have hk := (le_of_mem_indexed ha).2
  have hr := h.rounds_le.2
  rw [← h.client.split] at hb
  cases hh : s.client.half with
  | false =>
    rw [hh] at hr
    simp only [Bool.false_eq_true, ↓reduceIte, Nat.add_zero] at hr
    exact act_mem_of_indexed (mem_indexed_front hb (by omega))
  | true =>
    rw [hh] at hr
    simp only [↓reduceIte] at hr
    obtain ⟨m, rest, ht⟩ := h.client.half_exchange hh
    rw [ht] at hb
    rcases mem_indexed_append.mp hb with hb' | ⟨i, rfl, hb'⟩
    · exact act_mem_of_indexed hb'
    · have hi := (le_of_mem_indexed (n := 1) (C := rest) hb').1
      omega

/-- What is behind a party is in front of an act that is not behind it. -/
theorem Party.Follows.front {p : Party α μ} (h : p.Follows C) {b : α} {C₁ C₂ : Script α μ}
    (he : C = C₁ ++ .act b :: C₂) (hb : Step.act b ∉ p.done) :
    ∃ T, C₁ = p.done ++ T ∧ p.todo = T ++ .act b :: C₂ := by
  have hs := h.split
  rw [he] at hs
  rcases List.append_eq_append_iff.mp hs with ⟨T, hT, hr⟩ | ⟨T, hT, hr⟩
  · exact ⟨T, hT, hr⟩
  · cases T with
    | nil => exact ⟨[], by simpa using hT.symm, by simpa using hr.symm⟩
    | cons x T =>
      cases hr
      exact absurd (by rw [hT]; simp) hb

/-- Both parties are at the end, no message is on its way, and each read what it expected to read in
each of its exchanges. -/
structure Finished (C S : Script α μ) (s : State α μ) : Prop where
  client_done : s.client.todo = []
  server_done : s.server.todo = []
  up : s.up = []
  down : s.down = []
  client_got : s.client.got = exchanges C
  server_got : s.server.got = exchanges S

/-- Every message read so far is the one of the exchange it was read in. -/
structure InStep (s : State α μ) : Prop where
  client : s.client.got = exchanges s.client.done
  server : s.server.got <+: exchanges (s.server.done ++ s.server.todo)

theorem Inv.inStep (h : Inv C S s) (he : exchanges C = exchanges S) : InStep s := by
  constructor
  · have hp : s.client.got <+: exchanges S := by
      rw [← h.server.split, exchanges_append, ← h.down, List.append_assoc]
      exact List.prefix_append _ _
    have hq : exchanges s.client.done <+: exchanges S := by
      rw [← he, ← h.client.split, exchanges_append]
      exact List.prefix_append _ _
    exact (List.prefix_of_prefix_length_le hp hq h.client_got.le).eq_of_length h.client_got
  · have hq : s.client.sent <+: exchanges C := by
      rw [← h.client.split, exchanges_append]
      refine (List.prefix_append_right_inj _).mpr ?_
      split
      · exact List.take_prefix _ _
      · exact List.nil_prefix
    rw [h.server.split, ← he]
    refine List.IsPrefix.trans ?_ hq
    rw [← h.up]
    exact List.prefix_append _ _

theorem Inv.finished (h : Inv C S s) (he : exchanges C = exchanges S) (hc : s.client.todo = [])
    (hs : s.server.todo = []) : Finished C S s := by
  have hcs := h.client.split
  have hss := h.server.split
  rw [hc, List.append_nil] at hcs
  rw [hs, List.append_nil] at hss
  have hd := h.down
  have hu := h.up
  have hcg := h.client_got
  have hsg := h.server_got
  rw [hcs, rounds, he] at hcg
  rw [hss, h.server.half_nil hs, rounds, ← he] at hsg
  rw [hss] at hd
  simp only [Party.sent, hcs, h.client.half_nil hc, Bool.false_eq_true, ↓reduceIte,
    List.append_nil] at hu
  obtain ⟨hcg, hd⟩ := List.append_inj (hd.trans (List.append_nil _).symm) hcg
  obtain ⟨hsg, hu⟩ := List.append_inj (hu.trans (List.append_nil _).symm) hsg
  exact ⟨hc, hs, hu, hd, hcg.trans he.symm, hsg.trans he⟩

end Parties

section Runs

variable [DecidableEq α] [DecidableEq μ] {needs : α → List α} {C S : Script α μ} {s t : State α μ}

/-- What one action does, and where it is possible. -/
theorem act_cases {i : Action} (h : act needs i s = some t) :
    (∃ a rest, s.client.todo = .act a :: rest ∧ ready needs s.server a = true ∧
      t = { s with client := s.client.advance (.act a) rest }) ∨
    (∃ a rest, s.server.todo = .act a :: rest ∧ ready needs s.client a = true ∧
      t = { s with server := s.server.advance (.act a) rest }) ∨
    (∃ m rest, s.client.todo = .exchange m :: rest ∧ s.client.half = false ∧
      t = { s with client := { s.client with half := true }, up := s.up ++ [m] }) ∨
    (∃ x rest m up, s.server.todo = .exchange x :: rest ∧ s.server.half = false ∧ s.up = m :: up ∧
      t = { s with server := { s.server with half := true, got := s.server.got ++ [m] },
                   up := up }) ∨
    (∃ m rest, s.server.todo = .exchange m :: rest ∧ s.server.half = true ∧
      t = { s with server := s.server.advance (.exchange m) rest, down := s.down ++ [m] }) ∨
    (∃ x rest m down, s.client.todo = .exchange x :: rest ∧ s.client.half = true ∧
      s.down = m :: down ∧
      t = { s with client := { s.client.advance (.exchange x) rest with
                               got := s.client.got ++ [m] }, down := down }) := by
  cases i <;> simp only [act] at h
  case clientAct =>
    split at h
    next a rest ht =>
      obtain ⟨hr, h⟩ := Option.ite_none_right_eq_some.mp h
      exact Or.inl ⟨a, rest, ht, hr, (Option.some.inj h).symm⟩
    next => cases h
  case serverAct =>
    split at h
    next a rest ht =>
      obtain ⟨hr, h⟩ := Option.ite_none_right_eq_some.mp h
      exact Or.inr (Or.inl ⟨a, rest, ht, hr, (Option.some.inj h).symm⟩)
    next => cases h
  case clientWrite =>
    split at h
    next m rest ht hh => exact Or.inr (Or.inr (Or.inl ⟨m, rest, ht, hh, (Option.some.inj h).symm⟩))
    next => cases h
  case serverRead =>
    split at h
    next x rest m up ht hh hu =>
      exact Or.inr (Or.inr (Or.inr (Or.inl ⟨x, rest, m, up, ht, hh, hu, (Option.some.inj h).symm⟩)))
    next => cases h
  case serverWrite =>
    split at h
    next m rest ht hh =>
      exact Or.inr (Or.inr (Or.inr (Or.inr (Or.inl ⟨m, rest, ht, hh, (Option.some.inj h).symm⟩))))
    next => cases h
  case clientRead =>
    split at h
    next x rest m down ht hh hd =>
      exact Or.inr (Or.inr (Or.inr (Or.inr (Or.inr
        ⟨x, rest, m, down, ht, hh, hd, (Option.some.inj h).symm⟩))))
    next => cases h

theorem Inv.act (h : Inv C S s) {i : Action} (hs : act needs i s = some t) : Inv C S t := by
  rcases act_cases hs with ⟨a, rest, ht, -, rfl⟩ | ⟨a, rest, ht, -, rfl⟩ | ⟨m, rest, ht, hh, rfl⟩ |
    ⟨x, rest, m, up, ht, hh, hu, rfl⟩ | ⟨m, rest, ht, hh, rfl⟩ | ⟨x, rest, m, down, ht, hh, hd, rfl⟩
  · refine ⟨h.client.advance ht, h.server, ?_, h.down, ?_, h.server_got⟩
    · rw [h.client.sent_advance_act ht]
      exact h.up
    · simpa [Party.advance] using h.client_got
  · have hg := h.server_got
    rw [h.server.half_act ht] at hg
    refine ⟨h.client, h.server.advance ht, h.up, ?_, h.client_got, ?_⟩
    · simpa [Party.advance] using h.down
    · simpa [Party.advance] using hg
  · refine ⟨⟨h.client.split, fun _ => ⟨m, rest, ht⟩⟩, h.server, ?_, h.down, h.client_got,
      h.server_got⟩
    have hu := h.up
    simp only [Party.sent, hh, Bool.false_eq_true, ↓reduceIte, List.append_nil] at hu
    simp [Party.sent, ht, ← hu]
  · have hg := h.server_got
    have hup := h.up
    rw [hh] at hg
    rw [hu] at hup
    refine ⟨h.client, ⟨h.server.split, fun _ => ⟨x, rest, ht⟩⟩, ?_, h.down, h.client_got, ?_⟩
    · rw [← hup]
      simp
    · simpa using hg
  · have hg := h.server_got
    rw [hh] at hg
    refine ⟨h.client, h.server.advance ht, h.up, ?_, h.client_got, ?_⟩
    · simp [Party.advance, ← h.down]
    · simpa [Party.advance] using hg
  · have hdown := h.down
    rw [hd] at hdown
    have hf := h.client.advance ht
    refine ⟨⟨hf.split, hf.half_exchange⟩, h.server, ?_, ?_, ?_, h.server_got⟩
    · rw [h.up, ← Party.sent_advance_exchange ht hh]
      rfl
    · rw [← hdown]
      simp
    · simpa [Party.advance] using h.client_got

theorem Inv.of_reachable (h : Reachable needs C S s) : Inv C S s :=
  h.invariant (fun _ hi => hi ▸ Inv.init C S) fun _ _ hp ⟨_, hs⟩ => hp.act hs

/-- Where `a` waits for `b`, the peer meets `b` no later than `a` is met, and what stands in front
of `b` between the same two exchanges waits for acts in front of `a` only. -/
def Fed (needs : α → List α) (C S : Script α μ) : Prop :=
  ∀ C₁ a C₂, C = C₁ ++ .act a :: C₂ → ∀ b ∈ needs a, needs b = [] ∧
    ∃ S₁ S₂, S = S₁ ++ .act b :: S₂ ∧ rounds S₁ ≤ rounds C₁ ∧
      (rounds S₁ = rounds C₁ → ∀ d, (rounds S₁, d) ∈ indexed 0 S₁ → ∀ e ∈ needs d, .act e ∈ C₁)

theorem ready_eq_true {p : Party α μ} {a : α} :
    ready needs p a = true ↔ ∀ b ∈ needs a, Step.act b ∈ p.done := by
  simp [ready]

/-- A party at an act whose needs are not met has a peer that can go on. -/
theorem Fed.peer_ready {p q : Party α μ} (hfed : Fed needs C S) (hp : p.Follows C)
    (hq : q.Follows S) (hle : rounds p.done ≤ rounds q.done) {a : α} {rest : Script α μ}
    (ht : p.todo = .act a :: rest) (hn : ready needs q a = false) :
    ∃ b rest, q.todo = .act b :: rest ∧ ready needs p b = true := by
  have hex : ∃ b ∈ needs a, Step.act b ∉ q.done := by
    by_contra hc
    push Not at hc
    exact absurd (ready_eq_true.mpr hc) (by simp [hn])
  obtain ⟨b, hb, hbd⟩ := hex
  obtain ⟨hnb, S₁, S₂, hS, hr, hfront⟩ := hfed p.done a rest (by rw [← hp.split, ht]) b hb
  obtain ⟨T, hT, hqt⟩ := hq.front hS hbd
  have hrT : rounds S₁ = rounds q.done + rounds T := by rw [hT, rounds_append]
  have hfront := hfront (by omega)
  cases T with
  | nil => exact ⟨b, S₂, hqt, ready_eq_true.mpr (by simp [hnb])⟩
  | cons x T =>
    cases x with
    | act d =>
      refine ⟨d, T ++ .act b :: S₂, hqt, ready_eq_true.mpr (hfront d ?_)⟩
      rw [rounds_act] at hrT
      have hk : rounds S₁ = 0 + rounds q.done := by omega
      rw [hk, hT, indexed_append]
      exact List.mem_append_right _ List.mem_cons_self
    | exchange m =>
      rw [rounds_exchange] at hrT
      omega

theorem exists_of_serverAct {b : α} {rest : Script α μ} (ht : s.server.todo = .act b :: rest)
    (hb : ready needs s.client b = true) : ∃ i t, act needs i s = some t :=
  ⟨.serverAct, _, by simp only [act, ht, hb, ↓reduceIte]; rfl⟩

theorem exists_of_clientAct {b : α} {rest : Script α μ} (ht : s.client.todo = .act b :: rest)
    (hb : ready needs s.server b = true) : ∃ i t, act needs i s = some t :=
  ⟨.clientAct, _, by simp only [act, ht, hb, ↓reduceIte]; rfl⟩

/-- While the client waits for the message of an exchange the server can go on, or has written it.
-/
theorem Inv.progress_half (h : Inv C S s) (hr : rounds C = rounds S) (hS : Fed needs S C)
    (hh : s.client.half = true) : ∃ i t, Lockstep.act needs i s = some t := by
  obtain ⟨m, rest, hct⟩ := h.client.half_exchange hh
  have hle := h.rounds_le
  have hcr := congrArg rounds h.client.split
  have hsr := congrArg rounds h.server.split
  rw [rounds_append] at hcr hsr
  rw [hh] at hle
  rw [hct, rounds_exchange] at hcr
  simp only [↓reduceIte] at hle
  cases hd : s.down with
  | cons m' down => exact ⟨.clientRead, _, by simp only [Lockstep.act, hct, hh, hd]; rfl⟩
  | nil =>
    have hdown := congrArg List.length h.down
    rw [hd, List.append_nil, h.client_got, ← rounds] at hdown
    cases hst : s.server.todo with
    | nil =>
      rw [hst, rounds_nil] at hsr
      omega
    | cons y rest' =>
      cases y with
      | act b =>
        cases hrb : ready needs s.client b with
        | true => exact exists_of_serverAct hst hrb
        | false =>
          obtain ⟨e, r, hce, -⟩ := hS.peer_ready h.server h.client (by omega) hst hrb
          rw [hct] at hce
          cases hce
      | exchange m' =>
        cases hsh : s.server.half with
        | true => exact ⟨.serverWrite, _, by simp only [Lockstep.act, hst, hsh]; rfl⟩
        | false =>
          have hup := congrArg List.length h.up
          have hg := h.server_got
          rw [hsh] at hg
          simp only [Party.sent, hh, hct, ↓reduceIte, exchanges_exchange, List.take_succ_cons,
            List.take_zero, List.length_append, List.length_cons, List.length_nil] at hup
          cases hu : s.up with
          | nil =>
            rw [hu] at hup
            simp only [Bool.false_eq_true, ↓reduceIte, rounds, List.length_nil] at hg hup hdown
            omega
          | cons m'' up => exact ⟨.serverRead, _, by simp only [Lockstep.act, hst, hsh, hu]; rfl⟩

/-- Two parties with the same number of exchanges whose acts are fed can go on until both are at the
end. -/
theorem Inv.progress (h : Inv C S s) (hr : rounds C = rounds S) (hC : Fed needs C S)
    (hS : Fed needs S C) : (∃ i t, Lockstep.act needs i s = some t) ∨
      s.client.todo = [] ∧ s.server.todo = [] := by
  have hle := h.rounds_le.1
  have hcr := congrArg rounds h.client.split
  have hsr := congrArg rounds h.server.split
  rw [rounds_append] at hcr hsr
  cases hct : s.client.todo with
  | nil =>
    rw [hct, rounds_nil] at hcr
    cases hst : s.server.todo with
    | nil => exact Or.inr ⟨rfl, rfl⟩
    | cons x rest =>
      rw [hst] at hsr
      cases x with
      | act b =>
        refine Or.inl (exists_of_serverAct hst (ready_eq_true.mpr fun e he => ?_))
        obtain ⟨-, C₁, C₂, hC', -, -⟩ :=
          hS s.server.done b rest (by rw [← h.server.split, hst]) e he
        have hd := h.client.split
        rw [hct, List.append_nil] at hd
        rw [hd, hC']
        simp
      | exchange m =>
        rw [rounds_exchange] at hsr
        omega
  | cons x rest =>
    left
    cases x with
    | act a =>
      cases hra : ready needs s.server a with
      | true => exact exists_of_clientAct hct hra
      | false =>
        obtain ⟨b, rest', hst, hb⟩ := hC.peer_ready h.client h.server hle hct hra
        exact exists_of_serverAct hst hb
    | exchange m =>
      cases hh : s.client.half with
      | false => exact ⟨.clientWrite, _, by simp only [Lockstep.act, hct, hh]; rfl⟩
      | true => exact h.progress_half hr hS hh

def work (s : State α μ) : Nat :=
  2 * (s.client.todo.length + s.server.todo.length) + (if s.client.half then 0 else 1) +
    if s.server.half then 0 else 1

theorem work_lt {i : Action} (h : act needs i s = some t) : work t < work s := by
  rcases act_cases h with ⟨a, rest, ht, -, rfl⟩ | ⟨a, rest, ht, -, rfl⟩ | ⟨m, rest, ht, hh, rfl⟩ |
    ⟨x, rest, m, up, ht, hh, -, rfl⟩ | ⟨m, rest, ht, hh, rfl⟩ | ⟨x, rest, m, down, ht, hh, -, rfl⟩
  · simp only [work, Party.advance, ht, List.length_cons, Bool.false_eq_true, ↓reduceIte]
    split <;> omega
  · simp only [work, Party.advance, ht, List.length_cons, Bool.false_eq_true, ↓reduceIte]
    split <;> omega
  · simp [work, hh]
  · simp [work, hh]
  · simp only [work, Party.advance, ht, hh, List.length_cons, Bool.false_eq_true, ↓reduceIte]
    omega
  · simp only [work, Party.advance, ht, hh, List.length_cons, Bool.false_eq_true, ↓reduceIte]
    omega

theorem run_length_le {as : List Action}
    (h : Transition.run (act needs) as (State.init C S) = some s) :
    as.length ≤ 2 * (C.length + S.length + 1) := by
  have hb := Transition.length_le_of_measure (P := fun _ => True) work (fun _ _ _ _ _ => trivial)
    (fun _ _ _ _ hs => work_lt hs) trivial h
  rw [work] at hb
  simp only [State.init, Party.init, Bool.false_eq_true, ↓reduceIte] at hb
  omega

theorem exists_stuck (needs : α → List α) (C S : Script α μ) :
    ∃ s, Reachable needs C S s ∧ ¬ ∃ i t, act needs i s = some t := by
  have h : ∃ s, Relation.ReflTransGen (Transition.stepOf (act needs)) (State.init C S) s ∧
      ¬ ∃ i t, act needs i s = some t := by
    refine Transition.exists_goal_of_measure (P := fun _ => True) work (fun _ _ _ _ => trivial) ?_
      trivial
    intro s _ hn
    obtain ⟨i, t, ht⟩ := not_not.mp hn
    exact ⟨t, .single ⟨i, ht⟩, work_lt ht⟩
  obtain ⟨s, hr, hs⟩ := h
  exact ⟨s, ⟨_, rfl, hr⟩, hs⟩

/-- The parties stay in step and get to the end together in every order of their actions exactly
when their scripts have the same exchanges. -/
theorem inStep_iff (hC : exchanges C = exchanges S → Fed needs C S ∧ Fed needs S C) :
    (∀ s, Reachable needs C S s →
      InStep s ∧ ((∃ i t, act needs i s = some t) ∨ Finished C S s)) ↔
      exchanges C = exchanges S := by
  constructor
  · intro h
    obtain ⟨s, hs, hstuck⟩ := exists_stuck needs C S
    rcases (h s hs).2 with hn | hf
    · exact absurd hn hstuck
    · have hi := Inv.of_reachable hs
      have hd := hi.down
      have hss := hi.server.split
      rw [hf.server_done, List.append_nil] at hss
      rw [hf.down, List.append_nil, hf.client_got, hss] at hd
      exact hd
  · intro he s hs
    have hi := Inv.of_reachable hs
    obtain ⟨hfc, hfs⟩ := hC he
    refine ⟨hi.inStep he, ?_⟩
    rcases hi.progress (congrArg List.length he) hfc hfs with hp | ⟨hct, hst⟩
    · exact Or.inl hp
    · exact Or.inr (hi.finished he hct hst)

end Runs

end Lockstep
