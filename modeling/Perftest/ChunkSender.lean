import Perftest.ValidationCommon
import Perftest.Lib.Cyclic

namespace Perftest

/-- The ring of one QP: `chunks` chunks of `chunkBytes` bytes. -/
structure ChunkRing where
  chunkBytes : Nat
  chunks : Nat
  chunks_pos : 0 < chunks

/-- The receive side of one QP as its sender fills it, and the position of the sender. -/
structure SenderState where
  mem : Nat → Nat → UInt8
  marker : Nat → Nat
  cycle : Nat
  chunk : Nat
  off : Nat

namespace ChunkRing

variable (g : ChunkRing)

def senderInit : SenderState := ⟨fun _ _ => 0, fun _ => 0, 0, 0, 0⟩

/-- The sender writes the next byte of the chunk, slot after slot; behind the last byte it
increments the marker and goes on with the next chunk. -/
def senderStep (s : SenderState) : SenderState :=
  if s.off < g.chunkBytes then
    { s with
      mem := fun c a => if c = s.chunk ∧ a = s.off then validationCycleToPattern s.cycle
        else s.mem c a
      off := s.off + 1 }
  else if s.chunk + 1 < g.chunks then
    { s with
      marker := Function.update s.marker s.chunk (s.marker s.chunk + 1)
      chunk := s.chunk + 1
      off := 0 }
  else
    { s with
      marker := Function.update s.marker s.chunk (s.marker s.chunk + 1)
      cycle := s.cycle + 1
      chunk := 0
      off := 0 }

/-- The sender after `p` steps. -/
def senderAt (p : Nat) : SenderState := g.senderStep^[p] senderInit

/-- The chunks that the sender has completed in `p` steps. -/
def completed (p : Nat) : Nat := p / (g.chunkBytes + 1)

/-- How often the byte at offset `a` of chunk `c` has been written in `p` steps. -/
def writes (p c a : Nat) : Nat :=
  g.completed p / g.chunks +
    if c < g.completed p % g.chunks ∨
      (c = g.completed p % g.chunks ∧ a < p % (g.chunkBytes + 1)) then 1 else 0

/-- How often the marker of chunk `c` has been incremented in `p` steps. -/
def increments (p c : Nat) : Nat :=
  g.completed p / g.chunks + if c < g.completed p % g.chunks then 1 else 0

variable {g} {p c a : Nat}

/-- A step inside a chunk, the step behind its last byte, and the step that ends the cycle. -/
theorem completed_cases (p : Nat) :
    (p % (g.chunkBytes + 1) < g.chunkBytes ∧ g.completed (p + 1) = g.completed p ∧
        (p + 1) % (g.chunkBytes + 1) = p % (g.chunkBytes + 1) + 1) ∨
      (p % (g.chunkBytes + 1) = g.chunkBytes ∧ g.completed (p + 1) = g.completed p + 1 ∧
        (p + 1) % (g.chunkBytes + 1) = 0) := by
  rcases Cyclic.succ_cases (k := p) (n := g.chunkBytes + 1) (by omega) with
    ⟨hl, hm, hd⟩ | ⟨hl, hm, hd⟩
  · exact Or.inl ⟨by omega, hd, hm⟩
  · exact Or.inr ⟨by omega, hd, hm⟩

theorem writes_succ (hc : c < g.chunks) (ha : a < g.chunkBytes) :
    g.writes (p + 1) c a = g.writes p c a +
      if c = g.completed p % g.chunks ∧ a = p % (g.chunkBytes + 1) then 1 else 0 := by
  have hm := Nat.mod_lt (g.completed p) g.chunks_pos
  unfold writes
  rcases completed_cases (g := g) p with ⟨hl, hd, hr⟩ | ⟨hl, hd, hr⟩
  · rw [hd, hr]
    split_ifs <;> omega
  · rw [hd, hr]
    rcases Cyclic.succ_cases (k := g.completed p) g.chunks_pos with ⟨_, hm', hd'⟩ | ⟨_, hm', hd'⟩
    · rw [hm', hd']
      split_ifs <;> omega
    · rw [hm', hd']
      split_ifs <;> omega

theorem increments_succ (hc : c < g.chunks) :
    g.increments (p + 1) c = g.increments p c +
      if c = g.completed p % g.chunks ∧ p % (g.chunkBytes + 1) = g.chunkBytes then 1 else 0 := by
  unfold increments
  rcases completed_cases (g := g) p with ⟨hl, hd, hr⟩ | ⟨hl, hd, hr⟩
  · rw [hd, if_neg (by omega : ¬ (c = _ ∧ _))]
    rfl
  · rw [hd]
    rcases Cyclic.succ_cases (k := g.completed p) g.chunks_pos with ⟨_, hm', hd'⟩ | ⟨_, hm', hd'⟩
    · rw [hm', hd']
      split_ifs <;> omega
    · rw [hm', hd']
      split_ifs <;> omega

theorem writes_mono (hc : c < g.chunks) (ha : a < g.chunkBytes) :
    Monotone fun p => g.writes p c a :=
  monotone_nat_of_le_succ fun p => by
    rw [writes_succ hc ha]
    exact Nat.le_add_right _ _

/-- Every byte of a chunk has been written as often as its marker says. -/
theorem increments_le_writes (p c a : Nat) : g.increments p c ≤ g.writes p c a := by
  unfold increments writes
  split_ifs <;> omega

theorem writes_pos_of_position (hp : c = g.completed p % g.chunks ∧ a = p % (g.chunkBytes + 1)) :
    g.writes p c a = g.completed p / g.chunks := by
  unfold writes
  rw [if_neg (by omega)]
  rfl

/-- The state of the sender after `p` steps, in terms of the two counts. -/
structure SenderSpec (g : ChunkRing) (p : Nat) (s : SenderState) : Prop where
  cycle : s.cycle = g.completed p / g.chunks
  chunk : s.chunk = g.completed p % g.chunks
  off : s.off = p % (g.chunkBytes + 1)
  marker : ∀ c, c < g.chunks → s.marker c = g.increments p c
  mem : ∀ c a, c < g.chunks → a < g.chunkBytes →
    s.mem c a = if g.writes p c a = 0 then 0 else validationCycleToPattern (g.writes p c a - 1)

theorem SenderSpec.step {s : SenderState} (h : SenderSpec g p s) :
    SenderSpec g (p + 1) (g.senderStep s) := by
  have hlt := Nat.mod_lt (g.completed p) g.chunks_pos
  have hcases := Cyclic.succ_cases (k := g.completed p) g.chunks_pos
  rcases completed_cases (g := g) p with ⟨hl, hd, hr⟩ | ⟨hl, hd, hr⟩
  · have hs : s.off < g.chunkBytes := by rw [h.off]; exact hl
    simp only [senderStep, hs, if_true]
    refine ⟨by rw [hd]; exact h.cycle, by rw [hd]; exact h.chunk, by rw [hr, ← h.off],
      fun c hc => ?_, fun c a hc ha => ?_⟩
    · rw [increments_succ hc, if_neg (by omega)]
      exact h.marker c hc
    · simp only [writes_succ hc ha, h.chunk, h.off]
      by_cases hp : c = g.completed p % g.chunks ∧ a = p % (g.chunkBytes + 1)
      · simp only [hp, and_self, if_true, writes_pos_of_position ⟨rfl, rfl⟩, h.cycle,
          Nat.succ_ne_zero, if_false, Nat.add_sub_cancel]
      · simp only [hp, if_false, Nat.add_zero]
        exact h.mem c a hc ha
  · have hs : ¬ s.off < g.chunkBytes := by rw [h.off]; omega
    have hmem : ∀ c a, c < g.chunks → a < g.chunkBytes → g.writes (p + 1) c a = g.writes p c a := by
      intro c a hc ha
      rw [writes_succ hc ha, if_neg (by omega)]
      rfl
    have hmark : ∀ c, c < g.chunks →
        Function.update s.marker s.chunk (s.marker s.chunk + 1) c = g.increments (p + 1) c := by
      intro c hc
      rw [increments_succ hc]
      by_cases he : c = s.chunk
      · rw [he, Function.update_self, h.chunk, if_pos ⟨rfl, hl⟩, h.marker _ hlt]
      · rw [Function.update_of_ne he, if_neg (by rw [← h.chunk]; exact fun h' => he h'.1),
          h.marker c hc]
        rfl
    rcases hcases with ⟨hlt', hm', hd'⟩ | ⟨hlt', hm', hd'⟩
    · have hc : s.chunk + 1 < g.chunks := by rw [h.chunk]; exact hlt'
      simp only [senderStep, hs, hc, if_true, if_false]
      exact ⟨by rw [hd, hd']; exact h.cycle, by rw [hd, hm', ← h.chunk], by rw [hr], hmark,
        fun c a hc ha => by rw [hmem c a hc ha]; exact h.mem c a hc ha⟩
    · have hc : ¬ s.chunk + 1 < g.chunks := by rw [h.chunk]; omega
      simp only [senderStep, hs, hc, if_false]
      exact ⟨by rw [hd, hd', ← h.cycle], by rw [hd, hm'], by rw [hr], hmark,
        fun c a hc ha => by rw [hmem c a hc ha]; exact h.mem c a hc ha⟩

theorem senderAt_spec (g : ChunkRing) (p : Nat) : SenderSpec g p (g.senderAt p) := by
  induction p with
  | zero =>
    refine ⟨by simp [senderAt, senderInit, completed], by simp [senderAt, senderInit, completed],
      by simp [senderAt, senderInit], fun c _ => by simp [senderAt, senderInit, increments,
        completed], fun c a _ _ => by simp [senderAt, senderInit, writes, completed]⟩
  | succ p ih =>
    rw [senderAt, Function.iterate_succ_apply']
    exact ih.step

end ChunkRing

end Perftest
