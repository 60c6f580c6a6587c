import Perftest.DvMarkers

namespace Perftest

open CMachine CArray ByteMemory

variable {c : DvConfig} {L : ValidationBufferLayout} {x : DvSendCtx} {buf remBuf cores : Nat}
  {s s' : DvState}

/-- The offsets of a QP that has posted `k` operations. -/
def cursorOf (c : DvConfig) (k : Nat) : DvCursor :=
  DvCursor.load c (k % c.slots : Nat) (k / c.slots % 3 : Nat)

/-- The state of a run: the offsets count the posts, the words count the completed chunks, and the
slots behind the offset hold the pattern of the current cycle. -/
structure DvInv (c : DvConfig) (L : ValidationBufferLayout) (buf remBuf : Nat) (s : DvState) :
    Prop where
  range : ∀ q, s.scnt q < 2 ^ 64
  burst : ∀ q cur, s.burst = some (q, cur) → q < c.numOfQps ∧ cur = cursorOf c (s.scnt q)
  stored : ∀ q, (∀ cur, s.burst ≠ some (q, cur)) →
    DvCursor.load c (s.currentRemoteRecvOffset q) (s.currentSendBufferOffset q) =
      cursorOf c (s.scnt q)
  patterns : ∀ l, l < 3 → Holds (sourceSide c (s.initiator, s.target))
    (patternAddr c (sourceSide c (buf, remBuf)) l) c.payloadSize (validationCycleToPattern l)
  markers : ∀ q i, q < c.numOfQps → i < c.validationChunksPerQp →
    readWord s.target (markerAddr c L remBuf q i) =
      ((if c.mode = .read then 1 else 0) + markerFires c i (s.scnt q)) % 2 ^ 64
  words : ∀ q i, q < c.numOfQps → i < c.validationChunksPerQp →
    readWord (s.validatorMem c) (wordAddr c L (validatorSide c (buf, remBuf)) q i) =
      markerFires c i (s.scnt q)
  slots : ∀ q j, q < c.numOfQps → j < s.scnt q % c.slots →
    Holds (s.validatorMem c) (slotAddr c L (validatorSide c (buf, remBuf)) q j) c.payloadSize
      (validationCycleToPattern (s.scnt q / c.slots))

theorem DvInv.of_init (hr : DvRegions c L) (h : s.IsInit c L buf remBuf) :
    DvInv c L buf remBuf s := by
  obtain ⟨⟨m, hi⟩, ⟨m', ht⟩, hro, hso, hsc, hb⟩ := h
  have hf : ∀ i, markerFires c i 0 = 0 := fun i => Nat.le_zero.mp markerFires_le
  refine ⟨fun q => by simp [hsc], fun q cur h => by simp [hb] at h, fun q _ => ?_,
    fun l hl => ?_, fun q i hq hi => ?_, fun q i hq hi' => ?_, fun q j _ hj => ?_⟩
  · simp [hro, hso, hsc, cursorOf]
  · cases hm : c.mode <;>
      simpa only [sourceSide, hm, hi, ht] using initializeBufferContent_pattern hr hl
  · rw [ht, initializeBufferContent_marker hr hq hi, hsc, hf]
    split <;> rfl
  · rw [hsc, hf]
    cases hm : c.mode <;>
      simpa only [DvState.validatorMem, validatorSide, hm, hi, ht] using
        initializeBufferContent_word _ _ hr hq hi'
  · simp [hsc] at hj

/-- The cursor that follows the one of the `k`-th post. -/
theorem cursorOf_advance (hf : DvPostsFit c) (k : Nat) :
    (cursorOf c k).advance c = some (cursorOf c (k + 1)) := by
  have h := cursorAt_eq (c := c) hf.1 (k + 1)
  rw [cursorAt, cursorAt_eq hf.1 k, Option.bind_some] at h
  exact h

/-- Slots up to and including the one just written hold the pattern of the cycle. -/
theorem DvInv.slots_after {q k : Nat} (hr : DvRegions c L) (h : DvInv c L buf remBuf s)
    (hq : q < c.numOfQps) (hk : s.scnt q = k) {j : Nat} (hj : j ≤ k % c.slots) :
    Holds (validatorSide c ((expectedPost c L buf remBuf q k).effect c (s.initiator, s.target)))
      (slotAddr c L (validatorSide c (buf, remBuf)) q j) c.payloadSize
      (validationCycleToPattern (k / c.slots)) := by
  have hm := Nat.mod_lt k c.slots_pos
  rcases Nat.lt_or_ge j (k % c.slots) with hl | hl
  · have hs := h.slots q j hq (by rw [hk]; exact hl)
    rw [hk] at hs
    exact effect_slot_other hr hq hq (by omega) (by omega) hs
  · rw [show j = k % c.slots by omega]
    exact effect_slot hr hq h.patterns

/-- The marker words after a post count the completed chunks. -/
theorem DvInv.markers_after {q : Nat} (hr : DvRegions c L) (h : DvInv c L buf remBuf s)
    (hq : q < c.numOfQps) {q' i : Nat} (hq' : q' < c.numOfQps)
    (hi : i < c.validationChunksPerQp) :
    readWord ((expectedPost c L buf remBuf q (s.scnt q)).effect c (s.initiator, s.target)).2
        (markerAddr c L remBuf q' i) =
      ((if c.mode = .read then 1 else 0) +
        markerFires c i (Function.update s.scnt q (s.scnt q + 1) q')) % 2 ^ 64 := by
  by_cases hc : q' = q ∧ s.scnt q % c.slots + 1 = (i + 1) * c.validationChunkSize
  · obtain ⟨rfl, he⟩ := hc
    obtain ⟨h1, h2⟩ := markerFires_last he
    rw [(effect_word_same hr hq hi he).1, h.markers q' i hq hi, Function.update_self, h1, h2,
      Nat.mod_add_mod, Nat.add_assoc]
  · rw [(effect_word_other hr hq hq' hi hc).1, h.markers q' i hq' hi, markerFires_update hi hc]

theorem DvInv.words_after {q : Nat} (hr : DvRegions c L) (h : DvInv c L buf remBuf s)
    (hq : q < c.numOfQps) (hn : s.scnt q + 1 < 2 ^ 64) {q' i : Nat} (hq' : q' < c.numOfQps)
    (hi : i < c.validationChunksPerQp) :
    readWord (validatorSide c
        ((expectedPost c L buf remBuf q (s.scnt q)).effect c (s.initiator, s.target)))
        (wordAddr c L (validatorSide c (buf, remBuf)) q' i) =
      markerFires c i (Function.update s.scnt q (s.scnt q + 1) q') := by
  by_cases hc : q' = q ∧ s.scnt q % c.slots + 1 = (i + 1) * c.validationChunkSize
  · obtain ⟨rfl, he⟩ := hc
    obtain ⟨h1, h2⟩ := markerFires_last he
    have hle := markerFires_le (c := c) (i := i) (k := s.scnt q' + 1)
    rw [h2] at hle
    rw [(effect_word_same hr hq hi he).2, h.markers q' i hq hi, Function.update_self, h1, h2,
      Nat.mod_add_mod]
    split <;> rw [Nat.mod_eq_of_lt (by omega)] <;> omega
  · rw [(effect_word_other hr hq hq' hi hc).2, markerFires_update hi hc]
    exact h.words q' i hq' hi

theorem DvInv.slots_update {q : Nat} (hr : DvRegions c L) (h : DvInv c L buf remBuf s)
    (hq : q < c.numOfQps) {q' j : Nat} (hq' : q' < c.numOfQps)
    (hj : j < Function.update s.scnt q (s.scnt q + 1) q' % c.slots) :
    Holds (validatorSide c
        ((expectedPost c L buf remBuf q (s.scnt q)).effect c (s.initiator, s.target)))
      (slotAddr c L (validatorSide c (buf, remBuf)) q' j) c.payloadSize
      (validationCycleToPattern (Function.update s.scnt q (s.scnt q + 1) q' / c.slots)) := by
  rcases eq_or_ne q' q with rfl | hne
  · rw [Function.update_self] at hj ⊢
    rcases Cyclic.succ_cases (k := s.scnt q') c.slots_pos with ⟨_, hm, hd⟩ | ⟨_, hm, hd⟩
    · rw [hd]
      exact h.slots_after hr hq rfl (by omega)
    · omega
  · have hs : s.scnt q' % c.slots < c.slots := Nat.mod_lt _ c.slots_pos
    rw [Function.update_of_ne hne] at hj ⊢
    exact effect_slot_other hr hq hq' (by omega) (fun he => hne he.1) (h.slots q' j hq' hj)

/-- A post keeps the invariant. -/
theorem DvInv.post {q : Nat} {cur cur' : DvCursor} {p : DvPost} (hr : DvRegions c L)
    (hf : DvPostsFit c) (hx : dvSendCtx c L buf remBuf = some x)
    (ho : SgesOk c L buf x.sgeList) (h : DvInv c L buf remBuf s)
    (hb : s.burst = some (q, cur)) (hn : s.scnt q + 1 < 2 ^ 64)
    (hp : buildPost c x q cur = some p) (ha : cur.advance c = some cur') :
    DvInv c L buf remBuf { s with
      initiator := (p.effect c (s.initiator, s.target)).1
      target := (p.effect c (s.initiator, s.target)).2
      scnt := Function.update s.scnt q (s.scnt q + 1)
      burst := some (q, cur') } := by
  obtain ⟨hq, rfl⟩ := h.burst q cur hb
  have hpe := Option.some.inj (hp.symm.trans (buildPost_eq (k := s.scnt q) hf hx ho hq))
  have hce := Option.some.inj (ha.symm.trans (cursorOf_advance hf (s.scnt q)))
  subst hpe hce
  refine ⟨fun q' => ?_, fun q' cur h' => ?_, fun q' h' => ?_,
    fun l hl => effect_patterns hr hq hl (h.patterns l hl),
    fun q' i hq' hi => h.markers_after hr hq hq' hi,
    fun q' i hq' hi => h.words_after hr hq hn hq' hi,
    fun q' j hq' hj => h.slots_update hr hq hq' hj⟩
  · rcases eq_or_ne q' q with rfl | hne
    · simpa using hn
    · simpa [hne] using h.range q'
  · cases h'
    exact ⟨hq, by simp⟩
  · have hne : q' ≠ q := fun he => h' (cursorOf c (s.scnt q + 1)) (by rw [he])
    simpa [hne] using h.stored q' fun cur he => by
      rw [hb] at he
      cases he
      exact hne rfl

theorem DvInv.step (hr : DvRegions c L) (hf : DvPostsFit c)
    (hx : dvSendCtx c L buf remBuf = some x) (ho : SgesOk c L buf x.sgeList)
    (h : DvInv c L buf remBuf s) (hs : DvStep c x s s') : DvInv c L buf remBuf s' := by
  cases hs with
  | enter q hq hb =>
    refine ⟨h.range, fun q' cur h' => ?_, fun q' _ => h.stored q' (by simp [hb]), h.patterns,
      h.markers, h.words, h.slots⟩
    cases h'
    exact ⟨hq, h.stored q (by simp [hb])⟩
  | post q cur cur' p hb hn hp ha => exact h.post hr hf hx ho hb hn hp ha
  | leave q cur hb =>
    refine ⟨h.range, fun q' cur h' => by simp at h', fun q' _ => ?_, h.patterns, h.markers,
      h.words, h.slots⟩
    rcases eq_or_ne q' q with rfl | hne
    · simp [(h.burst q' cur hb).2, cursorOf, DvCursor.load]
    · simpa [hne] using h.stored q' fun cur' he => by
        rw [hb] at he
        cases he
        exact hne rfl

theorem DvReachable.inv (hr : DvRegions c L) (hf : DvPostsFit c)
    (hx : dvSendCtx c L buf remBuf = some x) (ho : SgesOk c L buf x.sgeList)
    (h : DvReachable c L x buf remBuf s) : DvInv c L buf remBuf s :=
  h.invariant (fun _ hi => DvInv.of_init hr hi) fun _ _ hi hs => hi.step hr hf hx ho hs

/-- When a word changes, the chunk it stands for has just been completed. -/
theorem DvInv.word_change (hr : DvRegions c L) (hf : DvPostsFit c)
    (hx : dvSendCtx c L buf remBuf = some x) (ho : SgesOk c L buf x.sgeList)
    (h : DvInv c L buf remBuf s) (hs : DvStep c x s s') {q i : Nat} (hq : q < c.numOfQps)
    (hi : i < c.validationChunksPerQp)
    (hw : readWord (s'.validatorMem c) (wordAddr c L (validatorSide c (buf, remBuf)) q i) ≠
      readWord (s.validatorMem c) (wordAddr c L (validatorSide c (buf, remBuf)) q i)) :
    readWord (s'.validatorMem c) (wordAddr c L (validatorSide c (buf, remBuf)) q i) =
        s.scnt q / c.slots + 1 ∧
      Holds (s'.validatorMem c)
        (slotAddr c L (validatorSide c (buf, remBuf)) q (i * c.validationChunkSize))
        (c.validationChunkSize * c.payloadSize) (validationCycleToPattern (s.scnt q / c.slots)) := by
  cases hs with
  | enter q' hq' hb => exact absurd rfl hw
  | leave q' cur hb => exact absurd rfl hw
  | post q' cur cur' p hb hn hp ha =>
    obtain ⟨hq', rfl⟩ := h.burst q' cur hb
    have hpe := Option.some.inj (hp.symm.trans (buildPost_eq (k := s.scnt q') hf hx ho hq'))
    subst hpe
    have hword := h.words_after hr hq' hn hq hi
    have hc : q = q' ∧ s.scnt q' % c.slots + 1 = (i + 1) * c.validationChunkSize := by
      by_contra hc
      rw [markerFires_update hi hc, ← h.words q i hq hi] at hword
      exact hw hword
    obtain ⟨rfl, he⟩ := hc
    rw [Function.update_self, (markerFires_last he).2] at hword
    refine ⟨hword, Holds.blocks fun j hj => ?_⟩
    have ha := h.slots_after hr hq rfl (j := i * c.validationChunkSize + j)
      (by rw [Nat.succ_mul] at he; omega)
    rw [slotAddr, ← Nat.add_assoc, Nat.add_mul, ← Nat.add_assoc] at ha
    exact ha

theorem dvAgreement_of_fit (hl : c.layout = some L) (hf : DvIndicesFit c) :
    DvAgreement c L buf remBuf cores := by
  have hr := c.regions hl
  obtain ⟨x, hx, ho⟩ := dvSendCtx_ok L buf remBuf hf.posts
  have he := entriesOk (L := L) hf (validatorSide c (buf, remBuf)) cores
  refine ⟨x, hx, fun q k hq => ⟨_, kthPost_eq hf.posts hx ho hq k, expectedPost_ok q k⟩, he,
    fun s q cur hs hb => ?_, fun s s' hs hst en hen hw => ?_⟩
  · have hi := DvReachable.inv hr hf.posts hx ho hs
    rw [kthPost, cursorAt_eq hf.1, Option.bind_some, (hi.burst q cur hb).2, cursorOf]
  · have hi := DvReachable.inv hr hf.posts hx ho hs
    obtain ⟨hq, hc, -, hm, hd⟩ := he.located en hen
    rw [hm] at hw
    obtain ⟨hv, hh⟩ := hi.word_change hr hf.posts hx ho hst hq hc hw
    exact ⟨_, by rw [hm, hv]; rfl, by rw [hd]; exact hh⟩

theorem buildPost_eq_some {q : Nat} {cur : DvCursor} {p : DvPost}
    (h : buildPost c x q cur = some p) :
    ∃ slot, (dvLut c).get cur.recvOff = some slot ∧
      (c.mode = .write → p.remoteAddr = x.remAddr q + slot.addrOffset) ∧
      (c.mode = .read → ∃ idx,
        checkInt (asInt (u32 (q * c.slotsPerQp)) + cur.recvOff) = some idx ∧
          x.sgeList.get idx = some p.sge) := by
  obtain ⟨slot, hs, h⟩ := Option.bind_eq_some_iff.mp h
  obtain ⟨data, hd, h⟩ := Option.bind_eq_some_iff.mp h
  have hp : p.sge = data.2 ∧ p.remoteAddr = data.1 := by
    dsimp only at h
    split at h
    next =>
      obtain ⟨sge, -, h⟩ := Option.bind_eq_some_iff.mp h
      cases h
      exact ⟨rfl, rfl⟩
    next =>
      cases h
      exact ⟨rfl, rfl⟩
  refine ⟨slot, hs, fun hm => ?_, fun hm => ?_⟩
  · simp only [dataWr, hm] at hd
    obtain ⟨sge, -, hd⟩ := Option.bind_eq_some_iff.mp hd
    cases hd
    exact hp.2
  · simp only [dataWr, hm] at hd
    obtain ⟨idx, hi, hd⟩ := Option.bind_eq_some_iff.mp hd
    obtain ⟨sge, hg, hd⟩ := Option.bind_eq_some_iff.mp hd
    cases hd
    exact ⟨idx, hi, by rw [hp.1]; exact hg⟩

/-- After the truncated number of slots the first QP starts again at slot zero. -/
theorem kthPost_slotsPerQp_addr (hx : dvSendCtx c L buf remBuf = some x) {p : DvPost}
    (h0 : 0 < c.slotsPerQp) (hlt : c.slotsPerQp < 2 ^ 31)
    (hk : kthPost c x 0 c.slotsPerQp = some p) :
    (c.mode = .write → p.remoteAddr = remBuf + L.recvSlotsOffset) ∧
      (c.mode = .read → p.sge.addr = buf + L.recvSlotsOffset) := by
  obtain ⟨hsg, -, hra, -⟩ := dvSendCtx_eq_some hx
  rw [kthPost, cursorAt_slotsPerQp h0 hlt, Option.bind_some] at hk
  obtain ⟨slot, hs, hw, hr⟩ := buildPost_eq_some hk
  have hlut := c.dvLut_get h0
  have hse := Option.some.inj (hs.symm.trans hlut)
  refine ⟨fun hm => ?_, fun hm => ?_⟩
  · rw [hw hm, hra, hse]
    simp [hm]
  · obtain ⟨idx, hi, hg⟩ := hr hm
    have hn := ctxSetSendWqesDataValSges_le hm h0 hlt hsg
    obtain ⟨t, ht, hget⟩ := ctxSetSendWqesDataValSges_read L buf hm hlt hn
    have hte := Option.some.inj (ht.symm.trans hsg)
    have hz : checkInt (asInt (u32 (0 * c.slotsPerQp)) + (DvCursor.load c 0 1).recvOff) =
        some ((0 * c.slotsPerQp + 0 : Nat) : Int) := by
      rw [Nat.zero_mul]
      rfl
    have hie := Option.some.inj (hi.symm.trans hz)
    rw [← hte, hie, hget 0 0 c.numOfQps_pos h0] at hg
    rw [← Option.some.inj hg]
    simp

/-- A truncated slot count makes the posts of the first QP go wrong. -/
theorem slots_lt_of_posts (hx : dvSendCtx c L buf remBuf = some x)
    (h : ∀ k, ∃ p, kthPost c x 0 k = some p ∧ KthPostOk c L buf remBuf 0 k p) :
    c.slots < 2 ^ 31 := by
  by_contra hs
  have hu : c.slotsPerQp < 2 ^ 32 := u32_lt _
  rcases Nat.eq_zero_or_pos c.slotsPerQp with h0 | h0
  · obtain ⟨p, hk, -⟩ := h 0
    obtain ⟨slot, hg, -⟩ := buildPost_eq_some hk
    rw [Table.get_eq_none (by simp [dvLut, Table.ofFn, h0, DvCursor.load])] at hg
    cases hg
  rcases Nat.lt_or_ge c.slotsPerQp (2 ^ 31) with hlt | hge
  · obtain ⟨p, hk, hok⟩ := h c.slotsPerQp
    obtain ⟨hw, hr⟩ := kthPost_slotsPerQp_addr hx h0 hlt hk
    have hmod : c.slotsPerQp % c.slots = c.slotsPerQp := Nat.mod_eq_of_lt (by omega)
    have hpos : 0 < c.slotsPerQp * c.payloadSize := Nat.mul_pos h0 c.payloadSize_pos
    have hne : ∀ b, slotAddr c L b 0 (c.slotsPerQp % c.slots) ≠ b + L.recvSlotsOffset := by
      intro b
      rw [hmod, slotAddr, Nat.zero_mul, Nat.zero_add]
      omega
    cases hm : c.mode with
    | write => exact hne remBuf ((hok.write hm).2.symm.trans (hw hm))
    | read => exact hne buf ((hok.read hm).1.symm.trans (hr hm))
  · obtain ⟨p, hk, -⟩ := h (2 ^ 31)
    have hn := asInt_neg hge hu
    rw [kthPost, cursorAt_overflow (by omega)] at hk
    cases hk

/-- The entry of the last chunk of the last QP is at its place only without truncation. -/
theorem last_entry_fits {vbuf : Nat} (hs : c.slots < 2 ^ 31) (he : EntriesOk c L vbuf cores) :
    c.numOfQps * c.slots < 2 ^ 32 + c.validationChunkSize := by
  have hp := c.payloadSize_pos
  have hn := c.numOfQps_pos
  have hch := c.chunks_pos
  obtain ⟨en, hen, hq, hi⟩ := he.covered (c.numOfQps - 1) (c.validationChunksPerQp - 1)
    (by omega) (by omega)
  obtain ⟨-, -, -, -, hd⟩ := he.located en hen
  obtain ⟨q, i, _, _, rfl⟩ := mem_validatorEntries.mp hen
  have hsp := c.slotsPerQp_eq hs
  rw [DvConfig.slotsPerQp, DvConfig.slots] at hsp
  rw [hq, hi] at hd
  simp only [scanEntry] at hq hi hd
  rw [hq, hi, hsp, slotAddr, ← DvConfig.slots] at hd
  have hu := u32_eq_iff.mp (Nat.eq_of_mul_eq_mul_right hp (Nat.add_left_cancel hd))
  have h1 : (c.numOfQps - 1) * c.slots + c.slots = c.numOfQps * c.slots := by
    rw [← Nat.succ_mul]
    congr 1
    omega
  have h2 : (c.validationChunksPerQp - 1) * c.validationChunkSize + c.validationChunkSize =
      c.slots := by
    rw [← Nat.succ_mul, DvConfig.slots, Nat.mul_comm]
    congr 1
    omega
  omega

/-- A READ run whose SGE table can be filled has no truncated index. -/
theorem postsFit_of_sendCtx (hs : c.slots < 2 ^ 31) (hx : dvSendCtx c L buf remBuf = some x) :
    DvPostsFit c := by
  have hsp := c.slotsPerQp_eq hs
  refine ⟨hs, fun hm => ?_⟩
  have hn := ctxSetSendWqesDataValSges_le hm (by rw [hsp]; exact c.slots_pos)
    (by rw [hsp]; exact hs) (dvSendCtx_eq_some hx).1
  rwa [hsp] at hn

theorem sgesOk_of_sendCtx (hf : DvPostsFit c) (hx : dvSendCtx c L buf remBuf = some x) :
    SgesOk c L buf x.sgeList := by
  obtain ⟨y, hy, ho⟩ := dvSendCtx_ok L buf remBuf hf
  rwa [Option.some.inj (hx.symm.trans hy)]

theorem fit_of_dvAgreement (h : DvAgreement c L buf remBuf cores) : DvIndicesFit c := by
  obtain ⟨x, hx, hk, he, -, -⟩ := h
  have hs := slots_lt_of_posts hx fun k => hk 0 k c.numOfQps_pos
  exact ⟨hs, fun _ => last_entry_fits hs he, (postsFit_of_sendCtx hs hx).2⟩

/-- Sender and validator agree exactly when no index leaves its machine type. -/
theorem dvAgreement_iff_indicesFit (hl : c.layout = some L) :
    DvAgreement c L buf remBuf cores ↔ DvIndicesFit c :=
  ⟨fit_of_dvAgreement, dvAgreement_of_fit hl⟩

/-- A READ run of 2 QPs with 4096 bytes and `tx_depth` 128. -/
def shallowRun : DvConfig where
  mode := .read
  payloadSize := 4096
  validationChunkSize := 128
  validationChunksPerQp := 24
  numOfQps := 2
  payloadSize_pos := by decide
  payloadSize_lt := by decide
  chunkSize_pos := by decide
  chunkSize_lt := by decide
  chunks_pos := by decide
  chunks_le := by decide
  numOfQps_pos := by decide
  numOfQps_le := by decide

theorem shallowRun_agrees : ∃ L, shallowRun.layout = some L ∧
    DvAgreement shallowRun L 4096 8192 16 :=
  ⟨_, rfl, (dvAgreement_iff_indicesFit rfl).mpr (by decide)⟩

/-- A WRITE run of 5000 QPs with 1 byte and `tx_depth` 15000. -/
def wideRun : DvConfig where
  mode := .write
  payloadSize := 1
  validationChunkSize := 75000
  validationChunksPerQp := 12
  numOfQps := 5000
  payloadSize_pos := by decide
  payloadSize_lt := by decide
  chunkSize_pos := by decide
  chunkSize_lt := by decide
  chunks_pos := by decide
  chunks_le := by decide
  numOfQps_pos := by decide
  numOfQps_le := by decide

/-- The chunk data address of the last QPs wraps at 2^32 slots. -/
theorem wideRun_disagrees :
    wideRun.validationChunkSize = deriveValidationChunkSize 1 15000 ∧
      wideRun.validationChunksPerQp = deriveValidationChunksPerQp 75000 5000 false ∧
      ∃ L, wideRun.layout = some L ∧
        ∀ buf remBuf cores, ¬ DvAgreement wideRun L buf remBuf cores := by
  refine ⟨by decide, by decide, _, rfl, fun buf remBuf cores h => ?_⟩
  exact absurd (fit_of_dvAgreement h) (by decide)

end Perftest
