import Perftest.BurstLat
import Perftest.SendParameters

namespace Perftest

open CMachine Transition

/-- What `run_iter_lat_burst` reads of the parameters. -/
structure BurstLoop where
  iters : Nat
  replyEvery : Nat
  txDepth : Nat
  postList : Nat
  cqMod : Nat
  burstSize : Int

/-- Where the loop stands: at its condition, in the posting loop, or in the two polls, with the
number of completions that the first has taken. -/
inductive BurstLoopPc where
  | head | post | pollRecv (ne : Nat) | pollSend (ne : Nat) | done
deriving DecidableEq, Repr

/-- The loop with the replies on their way, `replies` being all that the peer has sent, and the
completions of the signaled requests that were not taken yet. -/
structure BurstLoopState where
  pc : BurstLoopPc
  totscnt : Nat
  totccnt : Nat
  totrcnt : Nat
  pongCnt : Nat
  isSendingBurst : Bool
  burstIter : Nat
  replies : Nat
  signaled : Nat
deriving DecidableEq, Repr

namespace BurstLoop

variable (c : BurstLoop)

def init : BurstLoopState := ⟨.head, 0, 0, 0, 0, false, 0, 0, 0⟩

/-- The condition of the main loop. -/
def running (s : BurstLoopState) : Bool :=
  s.totrcnt < s.totscnt / c.replyEvery || s.totccnt < c.iters

/-- The condition of the posting loop. -/
def posting (s : BurstLoopState) : Bool :=
  s.totscnt < c.iters && subU64 s.totscnt s.totccnt < c.txDepth && s.isSendingBurst

/-- A post ends with a ping that the peer answers. -/
def pings (totscnt : Nat) : Prop := totscnt % c.replyEvery = 0 ∧ totscnt ≠ 0

instance (totscnt : Nat) : Decidable (c.pings totscnt) := inferInstanceAs (Decidable (_ ∧ _))

def postSend (s : BurstLoopState) : BurstLoopState :=
  let totscnt := s.totscnt + c.postList
  { s with
    totscnt := totscnt
    pongCnt := if c.pings totscnt then s.pongCnt + 1 else s.pongCnt
    burstIter := s.burstIter + 1
    isSendingBurst := decide ((s.burstIter + 1 : Nat) ≠ c.burstSize)
    signaled := s.signaled + (List.range c.postList).countP fun j => (j + 1) % c.cqMod = 0 }

/-- The steps of the loop, and of the peer, which answers once for `reply_every` requests. -/
inductive Action where
  | test | gap | post | endPost | takeRecv | endRecv | takeSend | endSend | reply
deriving DecidableEq, Repr

def act : Action → BurstLoopState → Option BurstLoopState
  | .test, s =>
    if s.pc = .head ∧ c.replyEvery ≠ 0 then
      if c.running s then
        if s.isSendingBurst then some { s with pc := .post }
        else some { s with pc := .post, isSendingBurst := true, burstIter := 0 }
      else some { s with pc := .done }
    else none
  | .gap, s =>
    if s.pc = .head ∧ c.replyEvery ≠ 0 ∧ c.running s ∧ s.isSendingBurst = false then
      some { s with pc := .pollRecv 0 }
    else none
  | .post, s => if s.pc = .post ∧ c.posting s then some (c.postSend s) else none
  | .endPost, s => if s.pc = .post ∧ ¬ c.posting s then some { s with pc := .pollRecv 0 } else none
  | .takeRecv, s =>
    match s.pc with
    | .pollRecv ne =>
      if ne < CTX_POLL_BATCH ∧ s.totrcnt < s.replies then
        some { s with pc := .pollRecv (ne + 1), totrcnt := s.totrcnt + 1 }
      else none
    | _ => none
  | .endRecv, s =>
    match s.pc with
    | .pollRecv ne => some { s with pc := .pollSend ne }
    | _ => none
  | .takeSend, s =>
    match s.pc with
    | .pollSend ne =>
      if 0 < s.signaled then
        some { s with pc := .pollSend ne, totccnt := s.totccnt + c.cqMod, signaled := s.signaled - 1 }
      else none
    | _ => none
  | .endSend, s =>
    match s.pc with
    | .pollSend ne => some { s with pc := if ne = 0 then .head else .pollRecv 0 }
    | _ => none
  | .reply, s =>
    if (s.replies + 1) * c.replyEvery ≤ s.totscnt then some { s with replies := s.replies + 1 }
    else none

def Reachable : BurstLoopState → Prop := Transition.Reachable (· = init) (stepOf c.act)

/-- The indices of `tposted` and `tcompleted` that a step uses. -/
def timeIndices (a : Action) (s : BurstLoopState) : List Nat :=
  match a with
  | .post => if c.pings (s.totscnt + c.postList) then [s.pongCnt] else []
  | .takeRecv => [s.totrcnt]
  | _ => []

/-- The pings are at most those of the requests, and so are their answers. -/
structure Counted (s : BurstLoopState) : Prop where
  posted : c.postList ∣ s.totscnt
  total : s.totscnt ≤ c.iters
  pongs : s.pongCnt ≤ s.totscnt / c.replyEvery
  replies : s.replies ≤ s.totscnt / c.replyEvery
  received : s.totrcnt ≤ s.replies

variable {c} {s t : BurstLoopState} {a : Action}

theorem Counted.postSend (h : c.Counted s) (hl : c.postList ∣ c.iters ∨ c.postList = 0)
    (hr : c.replyEvery ≠ 0) (hlt : s.totscnt < c.iters) :
    c.Counted (c.postSend s) ∧ (c.pings (s.totscnt + c.postList) →
      s.pongCnt < c.iters / c.replyEvery) := by
  obtain ⟨hd, -, hp, hs, hrec⟩ := h
  have htot : s.totscnt + c.postList ≤ c.iters := by
    rcases hl with hl | hz
    · obtain ⟨k, hk⟩ := hd
      obtain ⟨n, hn⟩ := hl
      rw [hk, hn] at hlt
      have hkn : k < n := Nat.lt_of_mul_lt_mul_left hlt
      rw [hk, hn, ← Nat.mul_succ]
      exact Nat.mul_le_mul_left _ hkn
    · omega
  have hmono : s.totscnt / c.replyEvery ≤ (s.totscnt + c.postList) / c.replyEvery :=
    Nat.div_le_div_right (Nat.le_add_right _ _)
  -- a ping reaches a new multiple of `reply_every`
  have hping : c.pings (s.totscnt + c.postList) →
      s.totscnt / c.replyEvery < (s.totscnt + c.postList) / c.replyEvery := by
    rintro ⟨hm, hne⟩
    have hpos : 0 < c.replyEvery := Nat.pos_of_ne_zero hr
    rw [Nat.div_lt_iff_lt_mul hpos, Nat.div_mul_cancel (Nat.dvd_of_mod_eq_zero hm)]
    rcases Nat.eq_zero_or_pos c.postList with hz | hgt
    · rw [hz] at hd
      have := Nat.eq_zero_of_zero_dvd hd
      omega
    · omega
  have hmax : (s.totscnt + c.postList) / c.replyEvery ≤ c.iters / c.replyEvery :=
    Nat.div_le_div_right htot
  refine ⟨⟨Nat.dvd_add hd (dvd_refl _), htot, ?_, hs.trans hmono, hrec⟩, fun h => ?_⟩
  · unfold BurstLoop.postSend
    dsimp only
    split
    next h =>
      have := hping h
      omega
    next => exact hp.trans hmono
  · have := hping h
    omega

/-- A step keeps the counts, and its indices are below the number of answers. -/
theorem Counted.step (h : c.Counted s) (hl : c.postList ∣ c.iters ∨ c.postList = 0)
    (hr : c.replyEvery ≠ 0) (ha : c.act a s = some t) :
    c.Counted t ∧ ∀ k ∈ c.timeIndices a s, k < c.iters / c.replyEvery := by
  cases a with
  | test =>
    simp only [act, Option.ite_none_right_eq_some] at ha
    obtain ⟨-, ha⟩ := ha
    refine ⟨?_, fun k hk => absurd hk List.not_mem_nil⟩
    split at ha
    next => split at ha <;> cases ha <;> exact ⟨h.posted, h.total, h.pongs, h.replies, h.received⟩
    next =>
      cases ha
      exact ⟨h.posted, h.total, h.pongs, h.replies, h.received⟩
  | gap | endPost =>
    simp only [act, Option.ite_none_right_eq_some, Option.some.injEq] at ha
    obtain ⟨-, rfl⟩ := ha
    exact ⟨⟨h.posted, h.total, h.pongs, h.replies, h.received⟩, fun k hk =>
      absurd hk List.not_mem_nil⟩
  | post =>
    simp only [act, Option.ite_none_right_eq_some, Option.some.injEq] at ha
    obtain ⟨⟨-, hp⟩, rfl⟩ := ha
    simp only [posting, Bool.and_eq_true, decide_eq_true_eq] at hp
    obtain ⟨hcount, hpong⟩ := h.postSend hl hr hp.1.1
    refine ⟨hcount, fun k hk => ?_⟩
    simp only [timeIndices] at hk
    split at hk
    next hping =>
      rw [List.mem_singleton.mp hk]
      exact hpong hping
    next => cases hk
  | takeRecv =>
    simp only [act] at ha
    split at ha
    next ne hpc =>
      simp only [Option.ite_none_right_eq_some, Option.some.injEq] at ha
      obtain ⟨⟨-, hlt⟩, rfl⟩ := ha
      have hmax : s.totscnt / c.replyEvery ≤ c.iters / c.replyEvery := Nat.div_le_div_right h.total
      refine ⟨⟨h.posted, h.total, h.pongs, h.replies, hlt⟩, fun k hk => ?_⟩
      rw [List.mem_singleton.mp hk]
      exact hlt.trans_le (h.replies.trans hmax)
    next => cases ha
  | endRecv | endSend =>
    simp only [act] at ha
    split at ha
    next =>
      cases ha
      exact ⟨⟨h.posted, h.total, h.pongs, h.replies, h.received⟩, fun k hk =>
        absurd hk List.not_mem_nil⟩
    next => cases ha
  | takeSend =>
    simp only [act] at ha
    split at ha
    next =>
      simp only [Option.ite_none_right_eq_some, Option.some.injEq] at ha
      obtain ⟨-, rfl⟩ := ha
      exact ⟨⟨h.posted, h.total, h.pongs, h.replies, h.received⟩, fun k hk =>
        absurd hk List.not_mem_nil⟩
    next => cases ha
  | reply =>
    simp only [act, Option.ite_none_right_eq_some, Option.some.injEq] at ha
    obtain ⟨hle, rfl⟩ := ha
    refine ⟨⟨h.posted, h.total, h.pongs, ?_, Nat.le_succ_of_le h.received⟩, fun k hk =>
      absurd hk List.not_mem_nil⟩
    exact (Nat.le_div_iff_mul_le (Nat.pos_of_ne_zero hr)).mpr hle

theorem Counted.of_reachable (hl : c.postList ∣ c.iters ∨ c.postList = 0) (hr : c.replyEvery ≠ 0)
    (h : c.Reachable s) : c.Counted s := by
  refine Transition.Reachable.invariant (fun s hi => ?_) (fun s t hs ht => ?_) h
  · rw [hi]
    exact ⟨dvd_zero _, Nat.zero_le _, Nat.zero_le _, Nat.zero_le _, le_refl _⟩
  · obtain ⟨a, ha⟩ := ht
    exact (hs.step hl hr ha).1

/-- Without a divisor the loop stops at its condition and no index is used. -/
theorem init_of_replyEvery_zero (hr : c.replyEvery = 0) (h : c.Reachable s) : s.pc = .head := by
  refine Transition.Reachable.invariant (P := fun s : BurstLoopState => s.pc = .head)
    (fun s hi => by rw [hi]; rfl) (fun s t hs ht => ?_) h
  obtain ⟨a, ha⟩ := ht
  cases a with
  | reply =>
    simp only [act, Option.ite_none_right_eq_some, Option.some.injEq] at ha
    obtain ⟨-, rfl⟩ := ha
    exact hs
  | _ => simp [act, hs, hr] at ha

end BurstLoop

/-- The loop of an accepted record. -/
def PerftestParameters.burstLoop (d : PerftestParameters) : BurstLoop where
  iters := d.iters
  replyEvery := d.replyEvery
  txDepth := d.txDepth
  postList := d.postList.toNat
  cqMod := d.cqMod
  burstSize := d.burstSize

end Perftest
