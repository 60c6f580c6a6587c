import Perftest.DvSender

namespace Perftest

open CMachine CArray

variable {c : DvConfig} {L : ValidationBufferLayout} {x : DvSendCtx} {buf remBuf q k : Nat}

theorem DvConfig.slotsPerQp_eq (h : c.slots < 2 ^ 31) : c.slotsPerQp = c.slots :=
  u32_of_lt (by omega)

theorem DvConfig.asInt_slotsPerQp (h : c.slotsPerQp < 2 ^ 31) :
    asInt c.slotsPerQp = c.slotsPerQp := asInt_of_lt h

theorem DvCursor.advance_within {cur : DvCursor} (h : cur.recvOff + 1 < 2 ^ 31)
    (hn : cur.recvOff + 1 ≠ asInt c.slotsPerQp) :
    cur.advance c = some ⟨cur.recvOff + 1, cur.sendOff, cur.sendAddrOffset⟩ := by
  simp only [DvCursor.advance, incInt_of_lt h, Option.bind_eq_bind, Option.bind_some, hn, if_false,
    Option.pure_def]

theorem DvCursor.advance_wrap {cur : DvCursor} (h : cur.recvOff + 1 < 2 ^ 31)
    (hn : cur.recvOff + 1 = asInt c.slotsPerQp) {i : Nat} (hs : cur.sendOff = (i % 3 : Nat)) :
    cur.advance c = some (DvCursor.load c 0 ((i + 1) % 3 : Nat)) := by
  have hi : (if cur.sendOff + 1 = 3 then 0 else cur.sendOff + 1) = ((i + 1) % 3 : Nat) := by
    rw [hs]
    split <;> omega
  simp only [DvCursor.advance, incInt_of_lt h, Option.bind_eq_bind, Option.bind_some, hn, if_true,
    incInt_of_lt (show cur.sendOff + 1 < 2 ^ 31 by omega), Option.pure_def, DvCursor.load]
  rw [hi]

/-- The incremental offsets are the digits of the post number. -/
theorem cursorAt_eq (h : c.slots < 2 ^ 31) (k : Nat) :
    cursorAt c k = some (DvCursor.load c (k % c.slots : Nat) (k / c.slots % 3 : Nat)) := by
  have hs := c.slotsPerQp_eq h
  have ha : asInt c.slotsPerQp = c.slots := by rw [hs]; exact asInt_of_lt h
  induction k with
  | zero => simp [cursorAt]
  | succ k ih =>
    have hm := Nat.mod_lt k c.slots_pos
    rw [cursorAt, ih, Option.bind_some]
    rcases Cyclic.succ_cases (k := k) c.slots_pos with ⟨hl, hr, hd⟩ | ⟨hl, hr, hd⟩
    · rw [DvCursor.advance_within (by simp only [DvCursor.load]; omega)
        (by rw [ha]; simp only [DvCursor.load]; omega), hr, hd]
      simp [DvCursor.load]
    · rw [DvCursor.advance_wrap (i := k / c.slots) (by simp only [DvCursor.load]; omega)
        (by rw [ha]; simp only [DvCursor.load]; omega) rfl, hr, hd]
      rfl

/-- Before the first wrap the receive offset counts the posts. -/
theorem cursorAt_first (hk : k < 2 ^ 31)
    (hn : ∀ j : Nat, 0 < j → j ≤ k → (j : Int) ≠ asInt c.slotsPerQp) :
    cursorAt c k = some (DvCursor.load c k 0) := by
  induction k with
  | zero => rfl
  | succ k ih =>
    rw [cursorAt, ih (by omega) fun j h0 hj => hn j h0 (by omega), Option.bind_some,
      DvCursor.advance_within (by simp only [DvCursor.load]; omega)
        (by simpa [DvCursor.load] using hn (k + 1) (by omega) (by omega))]
    simp [DvCursor.load]

/-- With a negative `(int)validation_slots_per_qp` the offset never wraps and overflows. -/
theorem cursorAt_overflow (h : asInt c.slotsPerQp ≤ 0) : cursorAt c (2 ^ 31) = none := by
  have hk := cursorAt_first (c := c) (k := 2 ^ 31 - 1) (by norm_num) fun j h0 _ => by omega
  rw [show (2 : Nat) ^ 31 = 2 ^ 31 - 1 + 1 by norm_num, cursorAt, hk, Option.bind_some]
  simp [DvCursor.advance, DvCursor.load, incInt]

/-- The first wrap takes place after `validation_slots_per_qp` posts. -/
theorem cursorAt_slotsPerQp (h0 : 0 < c.slotsPerQp) (h : c.slotsPerQp < 2 ^ 31) :
    cursorAt c c.slotsPerQp = some (DvCursor.load c 0 1) := by
  have ha := asInt_of_lt h
  obtain ⟨s, hs⟩ : ∃ s, c.slotsPerQp = s + 1 := ⟨c.slotsPerQp - 1, by omega⟩
  have hk := cursorAt_first (c := c) (k := s) (by omega) fun j h0 hj => by omega
  rw [hs, cursorAt, hk, Option.bind_some]
  exact DvCursor.advance_wrap (i := 0) (by simp only [DvCursor.load]; omega)
    (by rw [ha]; simp only [DvCursor.load]; omega) rfl

variable (L buf) in
theorem mem_readSgeWrites (h : c.slotsPerQp < 2 ^ 31) {p : Int × Sge} :
    p ∈ readSgeWrites c L buf ↔ ∃ qp slot, qp < c.numOfQps ∧ slot < c.slotsPerQp ∧
      p = (asInt (u32 (qp * c.slotsPerQp + slot)),
        ⟨buf + L.recvSlotsOffset + qp * (c.slotsPerQp * c.payloadSize) + slot * c.payloadSize,
          u32 c.payloadSize⟩) := by
  simp only [readSgeWrites, List.mem_flatMap, List.mem_range, List.mem_map, asInt_of_lt h,
    Int.toNat_natCast]
  constructor
  · rintro ⟨qp, hq, slot, hs, rfl⟩
    exact ⟨qp, slot, hq, hs, rfl⟩
  · rintro ⟨qp, slot, hq, hs, rfl⟩
    exact ⟨qp, hq, slot, hs, rfl⟩

/-- The table of READ SGEs can be built only if its last index fits in an `int`. -/
theorem ctxSetSendWqesDataValSges_le {t : Table Sge} (hr : c.mode = .read)
    (h0 : 0 < c.slotsPerQp) (h : c.slotsPerQp < 2 ^ 31)
    (ht : ctxSetSendWqesDataValSges c L buf = some t) : c.numOfQps * c.slotsPerQp ≤ 2 ^ 31 := by
  by_contra hc
  have hq : 2 ^ 31 / c.slotsPerQp < c.numOfQps := by
    rw [Nat.div_lt_iff_lt_mul h0]
    omega
  have hm : 2 ^ 31 / c.slotsPerQp * c.slotsPerQp + 2 ^ 31 % c.slotsPerQp = 2 ^ 31 := by
    rw [Nat.mul_comm]
    exact Nat.div_add_mod _ _
  have hp := (mem_readSgeWrites L buf h).mpr
    ⟨_, _, hq, Nat.mod_lt (2 ^ 31) h0, rfl⟩
  have hn := Table.fill_eq_none (t := Table.alloc (u32 (c.slotsPerQp * c.numOfQps))) hp (by
    rw [hm]
    have := asInt_neg (n := u32 (2 ^ 31)) (by norm_num [u32]) (by norm_num [u32])
    omega)
  simp only [ctxSetSendWqesDataValSges, hr, hn] at ht
  cases ht

theorem readSge_index_lt (slot : Nat) (hq : q < c.numOfQps) (hs : slot < c.slotsPerQp) :
    q * c.slotsPerQp + slot < c.numOfQps * c.slotsPerQp := by
  have h := Cyclic.block_end_le (n := c.slotsPerQp) hq
  omega

variable (L buf) in
/-- The table of READ SGEs lists the receive slots of all QPs one after another. -/
theorem ctxSetSendWqesDataValSges_read (hr : c.mode = .read) (h : c.slotsPerQp < 2 ^ 31)
    (hn : c.numOfQps * c.slotsPerQp ≤ 2 ^ 31) :
    ∃ t, ctxSetSendWqesDataValSges c L buf = some t ∧
      ∀ q slot, q < c.numOfQps → slot < c.slotsPerQp →
        t.get (q * c.slotsPerQp + slot : Nat) =
          some ⟨buf + L.recvSlotsOffset + (q * c.slotsPerQp + slot) * c.payloadSize,
            c.payloadSize⟩ := by
  have hp : u32 c.payloadSize = c.payloadSize := u32_of_lt (by have := c.payloadSize_lt; omega)
  have hidx : ∀ q slot, q < c.numOfQps → slot < c.slotsPerQp →
      asInt (u32 (q * c.slotsPerQp + slot)) = (q * c.slotsPerQp + slot : Nat) := by
    intro q slot hq hs
    have := readSge_index_lt _ hq hs
    rw [u32_of_lt (by omega), asInt_of_lt (by omega)]
  have hlen : (Table.alloc (u32 (c.slotsPerQp * c.numOfQps)) : Table Sge).len =
      c.numOfQps * c.slotsPerQp := by
    rw [Nat.mul_comm]
    exact u32_of_lt (by omega)
  obtain ⟨t, ht⟩ := Table.fill_isSome
    (t := (Table.alloc (u32 (c.slotsPerQp * c.numOfQps)) : Table Sge))
    (l := readSgeWrites c L buf) (by
      intro p hp
      obtain ⟨q, slot, hq, hs, rfl⟩ := (mem_readSgeWrites _ _ h).mp hp
      have := readSge_index_lt _ hq hs
      simp only [hlen, hidx q slot hq hs]
      omega)
  refine ⟨t, by simp only [ctxSetSendWqesDataValSges, hr, ht], fun q slot hq hs => ?_⟩
  have hg := Table.fill_get (i := (q * c.slotsPerQp + slot : Nat)) (f := fun i =>
      (⟨buf + L.recvSlotsOffset + i.toNat * c.payloadSize, c.payloadSize⟩ : Sge)) ht (by
    intro p hm
    obtain ⟨q, slot, hq, hs, rfl⟩ := (mem_readSgeWrites _ _ h).mp hm
    simp only [hidx q slot hq hs, hp, Int.toNat_natCast, Sge.mk.injEq, and_true]
    ring)
    (Or.inl ⟨_, (mem_readSgeWrites _ _ h).mpr ⟨q, slot, hq, hs, rfl⟩, hidx q slot hq hs⟩)
  simpa only [Int.toNat_natCast] using hg

theorem DvConfig.dvLut_get {s : Nat} (h : s < c.slotsPerQp) :
    (dvLut c).get (s : Nat) = some
      { addrOffset := s * c.payloadSize
        chunkId := s / c.validationChunkSize
        atomicTargetOffset := s / c.validationChunkSize * 8
        chainAtomic := (s + 1) % c.validationChunkSize = 0 } := Table.ofFn_get _ h

end Perftest
