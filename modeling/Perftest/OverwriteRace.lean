import Perftest.ChunkSender
import Perftest.HostDetection

namespace Perftest

open CMachine

/-- An interleaving: the number of sender steps of each QP before each read of the validator. -/
structure Interleaving where
  progress : Nat → Nat → Nat
  progress_mono : ∀ q, Monotone fun t => progress t q

/-- The geometry that all QPs of a run share. -/
structure RingGeometry where
  payloadSize : Nat
  opsPerChunk : Nat
  chunksPerQp : Nat
  chunks_pos : 0 < chunksPerQp

def RingGeometry.ring (g : RingGeometry) : ChunkRing :=
  ⟨g.opsPerChunk * g.payloadSize, g.chunksPerQp, g.chunks_pos⟩

/-- A validator between two polls. -/
structure PollState where
  st : ValidatorState
  entries : Nat → Nat → MarkerScanEntry
  t : Nat

section Run

variable (g : RingGeometry) (I : Interleaving)

def markerRead (t q c : Nat) : Nat := (g.ring.senderAt (I.progress t q)).marker c

def chunkReader (q c : Nat) : ChunkReader := fun t a =>
  (g.ring.senderAt (I.progress t q)).mem c a

/-- One poll of the marker of chunk `c` of QP `q` in `validator_thread_fn`. -/
def pollEntry (r : PollState) (q c : Nat) : PollState :=
  let markerVal := markerRead g I r.t q c
  if markerVal ≠ (r.entries q c).lastSeen ∧ markerVal ≠ 0 then
    let (_, st, entry, t) := validateOneMarker g.payloadSize g.opsPerChunk g.ring.chunkBytes
      (chunkReader g I q c) r.st (r.entries q c) markerVal (r.t + 1)
    { st := st, entries := Function.update r.entries q (Function.update (r.entries q) c entry)
      t := t }
  else { r with t := r.t + 1 }

/-- The validator polls its markers one after another. -/
def runPolls (r : PollState) : List (Nat × Fin g.chunksPerQp) → PollState
  | [] => r
  | p :: ps => runPolls (pollEntry g I r p.1 p.2) ps

/-- How often byte `a` of a chunk, complete with marker value `v`, has been overwritten when it is
read at time `t`. -/
def overwrites (q c v t a : Nat) : Nat := g.ring.writes (I.progress t q) c a - v

end Run

section Front

variable {w : Nat → Nat → Nat} {off n t m : Nat}

/-- A scan from `off` meets its first byte that the sender has turned into another pattern at `m`. -/
def FirstOverwritten (w : Nat → Nat → Nat) (off n t m : Nat) : Prop :=
  off ≤ m ∧ m < off + n ∧ w (t + (m - off)) m % 3 ≠ 0 ∧
    ∀ a, off ≤ a → a < m → w (t + (a - off)) a % 3 = 0

/-- The overwrite front is not among the five bytes from `m` on while the snapshot reads them: they
lie in the chunk and all show the same newer cycle. -/
def FrontOutside (w : Nat → Nat → Nat) (n ts m : Nat) : Prop :=
  m + 4 < n ∧ w ts m % 3 ≠ 0 ∧ ∀ i : Fin 4, w ts m % 3 = w (ts + 1 + i) (m + 1 + i) % 3

/-- Wherever a scan, or the second scan in the tail, runs into overwritten bytes, the overwrite
front is outside the snapshot window. -/
def OverwriteSettled (payloadSize n : Nat) (w : Nat → Nat → Nat) (t : Nat) : Prop :=
  ∀ m, FirstOverwritten w 0 n t m →
    if subU64 n (tailBytes payloadSize) ≤ m then
      ∀ m', FirstOverwritten w m (n - m) (t + m + 1) m' →
        FrontOutside w n (t + m + 1 + (m' - m) + 1) m'
    else FrontOutside w n (t + m + 1) m

end Front

/-- The condition on one poll: if it validates, the overwrites it meets are settled. -/
def PollSettled (g : RingGeometry) (I : Interleaving) (r : PollState) (q c : Nat) : Prop :=
  markerRead g I r.t q c ≠ (r.entries q c).lastSeen → markerRead g I r.t q c ≠ 0 →
    OverwriteSettled g.payloadSize g.ring.chunkBytes
      (overwrites g I q c (markerRead g I r.t q c)) (r.t + 1)

/-- The condition on all polls of a run. -/
def PollsSettled (g : RingGeometry) (I : Interleaving) (r : PollState) :
    List (Nat × Fin g.chunksPerQp) → Prop
  | [] => True
  | p :: ps => PollSettled g I r p.1 p.2 ∧ PollsSettled g I (pollEntry g I r p.1 p.2) ps

section Correct

variable {g : RingGeometry} {I : Interleaving} {q c v t : Nat}

/-- The sender never writes a wrong byte: once the marker has been seen at `v`, a byte holds the
pattern of cycle `v - 1` or of the later cycle that has overwritten it. -/
theorem chunkReader_eq {t₀ a : Nat} (hc : c < g.chunksPerQp) (ha : a < g.ring.chunkBytes)
    (hv : markerRead g I t₀ q c = v) (h0 : v ≠ 0) (ht : t₀ ≤ t) :
    chunkReader g I q c t a = validationCycleToPattern (v - 1 + overwrites g I q c v t a) := by
  have hs := ChunkRing.senderAt_spec g.ring (I.progress t q)
  have hm := (ChunkRing.senderAt_spec g.ring (I.progress t₀ q)).marker c hc
  have hle : v ≤ g.ring.writes (I.progress t q) c a := by
    rw [markerRead, hm] at hv
    rw [← hv]
    exact (ChunkRing.increments_le_writes _ _ _).trans
      (ChunkRing.writes_mono hc ha (I.progress_mono q ht))
  rw [chunkReader, hs.mem c a hc ha, if_neg (by omega), overwrites]
  congr 1
  omega

/-- Reads of one cycle or another, and the patterns they show. -/
theorem firstMismatch_iff_overwritten {rd : ChunkReader} {w : Nat → Nat → Nat} {n off k : Nat}
    {m : Nat} (hk : off + k ≤ n)
    (h : ∀ s a, t ≤ s → a < n → rd s a = validationCycleToPattern (v - 1 + w s a)) :
    FirstMismatch rd (validationCycleToPattern (v - 1)) off k t m ↔
      FirstOverwritten w off k t m := by
  have hp : ∀ s a, t ≤ s → a < n →
      (rd s a = validationCycleToPattern (v - 1) ↔ w s a % 3 = 0) := by
    intro s a hs ha
    rw [h s a hs ha, validationCycleToPattern_eq_iff]
    omega
  constructor
  · rintro ⟨h1, h2, h3, h4⟩
    exact ⟨h1, h2, fun he => h3 ((hp _ _ (by omega) (by omega)).mpr he),
      fun a ha hl => (hp _ _ (by omega) (by omega)).mp (h4 a ha hl)⟩
  · rintro ⟨h1, h2, h3, h4⟩
    exact ⟨h1, h2, fun he => h3 ((hp _ _ (by omega) (by omega)).mp he),
      fun a ha hl => (hp _ _ (by omega) (by omega)).mpr (h4 a ha hl)⟩

theorem epochGuard_iff_frontOutside {rd : ChunkReader} {w : Nat → Nat → Nat} {n ts m : Nat}
    (ht : t ≤ ts)
    (h : ∀ s a, t ≤ s → a < n → rd s a = validationCycleToPattern (v - 1 + w s a)) :
    EpochGuard rd (validationCycleToPattern (v - 1)) n ts m ↔ FrontOutside w n ts m := by
  constructor
  · rintro ⟨h1, h2, -, h4⟩
    rw [h ts m ht (by omega)] at h2 h4
    refine ⟨h1, fun he => h2 (validationCycleToPattern_congr (by omega)), fun i => ?_⟩
    have hi := h4 i
    have hb := i.isLt
    rw [h _ _ (by omega) (by omega), validationCycleToPattern_eq_iff] at hi
    omega
  · rintro ⟨h1, h2, h4⟩
    refine ⟨h1, ?_, ?_, fun i => ?_⟩
    · rw [h ts m ht (by omega), ne_eq, validationCycleToPattern_eq_iff]
      omega
    · rw [h ts m ht (by omega)]
      exact validationCycleToPattern_isPattern _
    · have hi := h4 i
      have hb := i.isLt
      rw [h ts m ht (by omega), h _ _ (by omega) (by omega), validationCycleToPattern_eq_iff]
      omega

theorem realMismatch_iff_not_settled {rd : ChunkReader} {w : Nat → Nat → Nat} {n p : Nat}
    (h : ∀ s a, t ≤ s → a < n → rd s a = validationCycleToPattern (v - 1 + w s a)) :
    RealMismatch p n (validationCycleToPattern (v - 1)) rd t ↔ ¬ OverwriteSettled p n w t := by
  have hlater : ∀ t', t ≤ t' → ∀ s a, t' ≤ s → a < n →
      rd s a = validationCycleToPattern (v - 1 + w s a) :=
    fun t' ht s a hs ha => h s a (ht.trans hs) ha
  unfold RealMismatch OverwriteSettled
  push Not
  refine exists_congr fun m => ?_
  rw [firstMismatch_iff_overwritten (by omega) h]
  refine and_congr_right fun hm => ?_
  have hmn := hm.2.1
  split
  · push Not
    refine exists_congr fun m' => ?_
    rw [firstMismatch_iff_overwritten (by omega) (hlater (t + m + 1) (by omega)),
      epochGuard_iff_frontOutside (by omega) h]
  · rw [epochGuard_iff_frontOutside (by omega) h]

/-- A poll counts an error exactly when its overwrites are not settled. -/
theorem pollEntry_errorsFound (r : PollState) (q : Nat) (hc : c < g.chunksPerQp) :
    (PollSettled g I r q c → (pollEntry g I r q c).st.errorsFound = r.st.errorsFound) ∧
      (¬ PollSettled g I r q c →
        (pollEntry g I r q c).st.errorsFound = r.st.errorsFound + 1) := by
  by_cases h : markerRead g I r.t q c ≠ (r.entries q c).lastSeen ∧ markerRead g I r.t q c ≠ 0
  · have hrd : ∀ s a, r.t + 1 ≤ s → a < g.ring.chunkBytes → chunkReader g I q c s a =
        validationCycleToPattern
          (markerRead g I r.t q c - 1 + overwrites g I q c (markerRead g I r.t q c) s a) :=
      fun s a hs ha => chunkReader_eq hc ha rfl h.2 (by omega)
    have he : markerToExpectedPattern (markerRead g I r.t q c) =
        some (validationCycleToPattern (markerRead g I r.t q c - 1)) := if_neg h.2
    have hcount := validateOneMarker_errorsFound g.payloadSize g.opsPerChunk g.ring.chunkBytes
      (r.t + 1) (chunkReader g I q c) r.st (r.entries q c) he
    have hs : PollSettled g I r q c ↔ OverwriteSettled g.payloadSize g.ring.chunkBytes
        (overwrites g I q c (markerRead g I r.t q c)) (r.t + 1) :=
      ⟨fun hp => hp h.1 h.2, fun hp _ _ => hp⟩
    rw [realMismatch_iff_not_settled hrd, ← hs, not_not] at hcount
    simp only [pollEntry, if_pos h]
    exact ⟨hcount.2, hcount.1⟩
  · have hs : PollSettled g I r q c := fun h1 h2 => absurd ⟨h1, h2⟩ h
    simp only [pollEntry, if_neg h]
    exact ⟨fun _ => trivial, fun hn => absurd hs hn⟩

theorem pollEntry_errorsFound_le (r : PollState) (q : Nat) (hc : c < g.chunksPerQp) :
    r.st.errorsFound ≤ (pollEntry g I r q c).st.errorsFound := by
  obtain ⟨h1, h2⟩ := pollEntry_errorsFound (I := I) r q hc
  by_cases h : PollSettled g I r q c
  · exact (h1 h).ge
  · rw [h2 h]
    omega

theorem runPolls_errorsFound_le (r : PollState) (polls : List (Nat × Fin g.chunksPerQp)) :
    r.st.errorsFound ≤ (runPolls g I r polls).st.errorsFound := by
  induction polls generalizing r with
  | nil => exact le_refl _
  | cons p ps ih => exact (pollEntry_errorsFound_le r p.1 p.2.isLt).trans (ih _)

/-- For a correct sender, no validation of a run counts an error exactly if the overwrites that the
validations meet are settled. -/
theorem runPolls_errorsFound_iff_settled (r : PollState)
    (polls : List (Nat × Fin g.chunksPerQp)) :
    (runPolls g I r polls).st.errorsFound = r.st.errorsFound ↔ PollsSettled g I r polls := by
  induction polls generalizing r with
  | nil => simp [runPolls, PollsSettled]
  | cons p ps ih =>
    obtain ⟨h1, h2⟩ := pollEntry_errorsFound (I := I) r p.1 p.2.isLt
    have hle := runPolls_errorsFound_le (I := I) (pollEntry g I r p.1 p.2) ps
    rw [runPolls, PollsSettled]
    by_cases h : PollSettled g I r p.1 p.2
    · rw [← h1 h, ih]
      exact ⟨fun hp => ⟨h, hp⟩, fun hp => hp.2⟩
    · have hp := h2 h
      exact ⟨fun he => by omega, fun he => absurd he.1 h⟩

end Correct

/-- One QP with 32 operations of 2048 bytes in each of its 24 chunks. -/
def smallRing : RingGeometry := ⟨2048, 32, 24, VALIDATION_MAX_CHUNKS_PER_QP_pos⟩

/-- The marker of the first chunk is read right after its first increment, all bytes when the next
cycle has overwritten the first two bytes of the chunk. -/
def earlyFront : Interleaving where
  progress t _ := if t = 0 then 65537 else 24 * 65537 + 2
  progress_mono q t t' h := by
    dsimp only
    split_ifs <;> omega

def pollStart : PollState :=
  { st := { stats := ⟨0, 0, 0, 0, 0⟩, error := ⟨false, 0, 0, 0, 0, 0⟩, errorsFound := 0 }
    entries := fun q c => { markerPtr := 0, lastSeen := 0, chunkData := 0, qpId := q, chunkId := c }
    t := 0 }

theorem earlyFront_markerRead : markerRead smallRing earlyFront 0 0 0 = 1 := by
  have hm := (ChunkRing.senderAt_spec smallRing.ring (earlyFront.progress 0 0)).marker 0 (by decide)
  rw [markerRead, hm]
  decide

/-- The scan stops at the first byte, where the snapshot sees both cycles. -/
theorem earlyFront_not_settled : ¬ PollSettled smallRing earlyFront pollStart 0 0 := by
  intro h
  have hs := h (by rw [show pollStart.t = 0 from rfl, earlyFront_markerRead]; decide)
    (by rw [show pollStart.t = 0 from rfl, earlyFront_markerRead]; decide)
  rw [show pollStart.t = 0 from rfl, earlyFront_markerRead] at hs
  have hf := hs 0 ⟨by decide, by decide, by decide, fun a _ ha => by omega⟩
  rw [if_neg (by decide)] at hf
  exact absurd (hf.2.2 1) (by decide)

/-- The overwrite front inside the snapshot window makes a correct run count an error. -/
theorem earlyFront_counted :
    smallRing.opsPerChunk = deriveValidationChunkSize 2048 32 ∧
      smallRing.chunksPerQp = deriveValidationChunksPerQp 65536 1 false ∧
      (runPolls smallRing earlyFront pollStart [(0, ⟨0, by decide⟩)]).st.errorsFound ≠ 0 := by
  refine ⟨by decide, by decide, fun h => ?_⟩
  have hp := (pollEntry_errorsFound pollStart 0 (by decide)).2 earlyFront_not_settled
  simp only [runPolls] at h
  rw [hp] at h
  exact absurd h (by decide)

end Perftest
