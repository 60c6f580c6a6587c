import Perftest.Lib.CreditLink
import Perftest.Lib.Transition
import Mathlib.Tactic

namespace Perftest

open CreditLink

/-- The server polls the receive completions; at `credit` it has a credit of the QP to post. -/
inductive CreditServerPc where
  | poll | credit (index : Nat)
deriving DecidableEq, Repr

/-- The server waits to post the credit of QP `q`. -/
def CreditServerPc.waits : CreditServerPc → Nat → Bool
  | .poll, _ => false
  | .credit i, q => i = q

/-- The receiving side of a test with `send_rcredit`, and the credits. Counts are kept in full, the
code sees the low bits of each. Of the `outstanding` credit writes, `unfetched` wait on the send
queue, those on the `wire` carry what they fetched from `ctrlBuf`, and `sendCq` has the completions
of the delivered ones. -/
structure CreditServer where
  arrived : Nat → Nat
  rq : Nat → Nat
  recvCq : List Nat
  unusedRecvForQp : Nat → Nat
  rcntForQp : Nat → Nat
  ctrlBuf : Nat → Nat
  outstanding : Nat → Nat
  unfetched : Nat → Nat
  wire : Nat → List Nat
  sendCq : List Nat
  creditBuf : Nat → Nat
  server : CreditServerPc

namespace CreditServer

def start (rq : Nat → Nat) : CreditServer :=
  { arrived := fun _ => 0
    rq := rq
    recvCq := []
    unusedRecvForQp := fun _ => 0
    rcntForQp := fun _ => 0
    ctrlBuf := fun _ => 0
    outstanding := fun _ => 0
    unfetched := fun _ => 0
    wire := fun _ => []
    sendCq := []
    creditBuf := fun _ => 0
    server := .poll }

/-- A completion of QP `q` is taken; its receive is unused now. -/
def takeRecv (s : CreditServer) (q : Nat) (rest : List Nat) : CreditServer :=
  { s with
    recvCq := rest
    unusedRecvForQp := Function.update s.unusedRecvForQp q (s.unusedRecvForQp q + 1) }

/-- `recv_post_list` receives of QP `q` are posted on the receive queue `r`. -/
def postRecv (s : CreditServer) (q r recvPostList : Nat) : CreditServer :=
  { s with
    unusedRecvForQp := Function.update s.unusedRecvForQp q (s.unusedRecvForQp q - recvPostList)
    rq := Function.update s.rq r (s.rq r + recvPostList) }

/-- The count of QP `q` goes up; a credit that is due goes into `ctrl_buf` and is to be posted. -/
def countRecv (s : CreditServer) (q : Nat) (due : Bool) : CreditServer :=
  let rcnt := s.rcntForQp q + 1
  { s with
    rcntForQp := Function.update s.rcntForQp q rcnt
    ctrlBuf := if due then Function.update s.ctrlBuf q rcnt else s.ctrlBuf
    server := if due then .credit q else s.server }

/-- The steps of the devices and of the server around a credit write. -/
inductive Action where
  | arrive (q : Nat) | postCredit | reap (n : Nat) | fetch (q : Nat) | deliver (q : Nat)
deriving DecidableEq, Repr

/-- A message arrives where one was sent and finds a receive of its queue. The poll for credit
completions, while the send queue is full of them, returns `n`. -/
def act (txDepth : Nat) (queue scnt : Nat → Nat) : Action → CreditServer → Option CreditServer
  | .arrive q, s =>
    if s.arrived q < scnt q ∧ 0 < s.rq (queue q) then
      some { s with
        arrived := Function.update s.arrived q (s.arrived q + 1)
        rq := Function.update s.rq (queue q) (s.rq (queue q) - 1)
        recvCq := s.recvCq ++ [q] }
    else none
  | .postCredit, s =>
    match s.server with
    | .credit q =>
      if s.outstanding q = txDepth then none
      else some { s with
        outstanding := Function.update s.outstanding q (s.outstanding q + 1)
        unfetched := Function.update s.unfetched q (s.unfetched q + 1)
        server := .poll }
    | .poll => none
  | .reap n, s =>
    match s.server with
    | .credit q =>
      if s.outstanding q = txDepth ∧ 0 < n ∧ n ≤ s.sendCq.length ∧ n ≤ txDepth then
        some { s with
          outstanding := fun p => s.outstanding p - (s.sendCq.take n).count p
          sendCq := s.sendCq.drop n }
      else none
    | .poll => none
  | .fetch q, s =>
    if 0 < s.unfetched q then
      some { s with
        unfetched := Function.update s.unfetched q (s.unfetched q - 1)
        wire := Function.update s.wire q (s.wire q ++ [s.ctrlBuf q]) }
    else none
  | .deliver q, s =>
    match s.wire q with
    | v :: rest =>
      some { s with
        wire := Function.update s.wire q rest
        creditBuf := Function.update s.creditBuf q v
        sendCq := s.sendCq ++ [q] }
    | [] => none

/-- The counts of the messages are the server's own; only the post of a credit moves the server. -/
theorem act_counts {txDepth : Nat} {queue scnt : Nat → Nat} {s t : CreditServer} {a : Action}
    (ha : act txDepth queue scnt a s = some t) :
    t.rcntForQp = s.rcntForQp ∧ t.unusedRecvForQp = s.unusedRecvForQp ∧
      (a ≠ .postCredit ∧ t.server = s.server ∨
        a = .postCredit ∧ ∃ q, s.server = .credit q ∧ t.server = .poll) := by
  cases a with
  | arrive q =>
    obtain ⟨-, rfl⟩ := Option.ite_none_right_eq_some.mp ha |>.imp_right Option.some.inj
    exact ⟨rfl, rfl, Or.inl ⟨nofun, rfl⟩⟩
  | postCredit =>
    simp only [act] at ha
    split at ha
    next q hpc =>
      split at ha
      next => cases ha
      next =>
        rw [← Option.some.inj ha]
        exact ⟨rfl, rfl, Or.inr ⟨rfl, q, hpc, rfl⟩⟩
    next => cases ha
  | reap n =>
    simp only [act] at ha
    split at ha
    next =>
      obtain ⟨-, rfl⟩ := Option.ite_none_right_eq_some.mp ha |>.imp_right Option.some.inj
      exact ⟨rfl, rfl, Or.inl ⟨nofun, rfl⟩⟩
    next => cases ha
  | fetch q =>
    obtain ⟨-, rfl⟩ := Option.ite_none_right_eq_some.mp ha |>.imp_right Option.some.inj
    exact ⟨rfl, rfl, Or.inl ⟨nofun, rfl⟩⟩
  | deliver q =>
    simp only [act] at ha
    split at ha
    next =>
      rw [← Option.some.inj ha]
      exact ⟨rfl, rfl, Or.inl ⟨nofun, rfl⟩⟩
    next => cases ha

/-- The channel of QP `q`, on which `n` messages were sent. -/
def chan (s : CreditServer) (q n : Nat) : Chan :=
  { sent := n
    arrived := s.arrived q
    queued := s.recvCq.count q
    received := s.rcntForQp q
    cell := s.ctrlBuf q
    outstanding := s.outstanding q
    unfetched := s.unfetched q
    wire := s.wire q
    acked := s.sendCq.count q
    credit := s.creditBuf q
    waits := s.server.waits q }

variable {k : Schedule} {queue scnt : Nat → Nat} {s t : CreditServer} {q : Nat}

theorem chans_of_update {n : Nat → Nat} {v : Chan} (h : ∀ p, Ok k (s.chan p (scnt p)))
    (hv : ∀ p, t.chan p (n p) = if p = q then v else s.chan p (scnt p)) (hok : Ok k v) (p : Nat) :
    Ok k (t.chan p (n p)) := by
  rw [hv p]
  split
  next => exact hok
  next => exact h p

/-- The steps keep every channel. -/
theorem act_chans {a : Action} (h : ∀ p, Ok k (s.chan p (scnt p)))
    (ha : act k.limit queue scnt a s = some t) (p : Nat) : Ok k (t.chan p (scnt p)) := by
  cases a with
  | arrive i =>
    obtain ⟨⟨hlt, -⟩, rfl⟩ := Option.ite_none_right_eq_some.mp ha |>.imp_right Option.some.inj
    refine chans_of_update (q := i) h (fun p => ?_) ((h i).arrive hlt) p
    by_cases hp : p = i
    · subst hp
      simp [chan]
    · have hne : ¬ i = p := fun he => hp he.symm
      simp [chan, hp, hne]
  | postCredit =>
    simp only [act] at ha
    split at ha
    next i hpc =>
      split at ha
      next => cases ha
      next hn =>
        rw [← Option.some.inj ha]
        refine chans_of_update (q := i) h (fun p => ?_) ((h i).post hn) p
        by_cases hp : p = i
        · subst hp
          simp [chan, CreditServerPc.waits]
        · have hne : ¬ i = p := fun he => hp he.symm
          simp [chan, CreditServerPc.waits, hpc, hp, hne]
    next => cases ha
  | reap n =>
    simp only [act] at ha
    split at ha
    next i hpc =>
      obtain ⟨-, rfl⟩ := Option.ite_none_right_eq_some.mp ha |>.imp_right Option.some.inj
      have hsplit : s.sendCq.count p = (s.sendCq.take n).count p + (s.sendCq.drop n).count p := by
        rw [← List.count_append, List.take_append_drop]
      have hacked : (s.sendCq.drop n).count p = s.sendCq.count p - (s.sendCq.take n).count p := by
        omega
      have hle : (s.sendCq.take n).count p ≤ (s.chan p (scnt p)).acked := by
        simp only [chan]
        omega
      have hr := (h p).reap hle
      simp only [chan, hacked] at hr ⊢
      exact hr
    next => cases ha
  | fetch i =>
    obtain ⟨hu, rfl⟩ := Option.ite_none_right_eq_some.mp ha |>.imp_right Option.some.inj
    refine chans_of_update (q := i) h (fun p => ?_) ((h i).fetch hu) p
    by_cases hp : p = i
    · subst hp
      simp [chan]
    · simp [chan, hp]
  | deliver i =>
    simp only [act] at ha
    split at ha
    next g rest hwire =>
      rw [← Option.some.inj ha]
      refine chans_of_update (q := i) h (fun p => ?_) ((h i).deliver hwire) p
      by_cases hp : p = i
      · subst hp
        simp [chan]
      · have hne : ¬ i = p := fun he => hp he.symm
        simp [chan, hp, hne]
    next => cases ha

/-- The server takes a completion, with or without a list of receives behind it. -/
theorem chan_receive {r recvPostList : Nat} {rest : List Nat} {due posts : Bool}
    (hpc : s.server = .poll) (hcq : s.recvCq = q :: rest) (p n : Nat) :
    ((if posts then (s.takeRecv q rest).postRecv q r recvPostList
      else s.takeRecv q rest).countRecv q due).chan p n =
      if p = q then { s.chan q n with
        queued := (s.chan q n).queued - 1
        received := (s.chan q n).received + 1
        cell := if due then (s.chan q n).received + 1 else (s.chan q n).cell
        waits := due }
      else s.chan p n := by
  by_cases hp : p = q
  · subst hp
    cases due <;> cases posts <;>
      simp [chan, takeRecv, postRecv, countRecv, CreditServerPc.waits, hpc, hcq]
  · have hne : ¬ q = p := fun he => hp he.symm
    cases due <;> cases posts <;>
      simp [chan, takeRecv, postRecv, countRecv, CreditServerPc.waits, hpc, hcq, hp, hne]

end CreditServer

/-- The sum over the QPs of one receive queue. -/
theorem sum_queue_update {f queue : Nat → Nat} {n q r x : Nat} (hq : q < n) :
    ∑ p ∈ Finset.range n with queue p = r, Function.update f q (f q + x) p =
      ∑ p ∈ Finset.range n with queue p = r, f p + if queue q = r then x else 0 := by
  by_cases hr : queue q = r
  · have hm : q ∈ (Finset.range n).filter fun p => queue p = r := by
      simp [hq, hr]
    rw [Finset.sum_update_of_mem hm, if_pos hr, Finset.sum_eq_add_sum_sdiff_singleton_of_mem hm f]
    omega
  · have hm : q ∉ (Finset.range n).filter fun p => queue p = r := by
      simp [hr]
    rw [Finset.sum_update_of_notMem hm, if_neg hr, Nat.add_zero]

/-- What holds between the steps of a client and a server with credits: every channel keeps its
schedule, and the receives of a queue are those posted for the messages taken so far. -/
structure CreditOk (k : Schedule) (n : Nat) (queue posted scnt : Nat → Nat) (s : CreditServer) :
    Prop where
  chans : ∀ q, Ok k (s.chan q (scnt q))
  idle : ∀ q, n ≤ q → scnt q = 0
  supplied : ∀ r, s.rq r + ∑ q ∈ Finset.range n with queue q = r, s.arrived q =
    ∑ q ∈ Finset.range n with queue q = r, posted (s.rcntForQp q)

namespace CreditOk

variable {k : Schedule} {n q : Nat} {queue posted scnt : Nat → Nat} {s t : CreditServer}

theorem start (hk : k.Counts) : CreditOk k n queue posted (fun _ => 0)
    (CreditServer.start fun r => ∑ q ∈ Finset.range n with queue q = r, posted 0) where
  chans _ := Ok.start hk
  idle _ _ := rfl
  supplied r := by simp [CreditServer.start]

theorem lt_of_arrived (h : CreditOk k n queue posted scnt s) (ha : 0 < scnt q) : q < n := by
  by_contra hn
  have := h.idle q (Nat.not_lt.mp hn)
  omega

theorem act {a : CreditServer.Action} (h : CreditOk k n queue posted scnt s)
    (ha : CreditServer.act k.limit queue scnt a s = some t) : CreditOk k n queue posted scnt t where
  chans := CreditServer.act_chans h.chans ha
  idle := h.idle
  supplied r := by
    have hs := h.supplied r
    cases a with
    | arrive i =>
      obtain ⟨⟨hlt, hq⟩, rfl⟩ := Option.ite_none_right_eq_some.mp ha |>.imp_right Option.some.inj
      dsimp only
      rw [sum_queue_update (h.lt_of_arrived (by omega))]
      by_cases hr : queue i = r
      · subst hr
        rw [Function.update_self, if_pos rfl]
        omega
      · rw [Function.update_of_ne fun he => hr he.symm, if_neg hr]
        exact hs
    | postCredit =>
      simp only [CreditServer.act] at ha
      split at ha
      next =>
        split at ha
        next => cases ha
        next =>
          rw [← Option.some.inj ha]
          exact hs
      next => cases ha
    | reap m =>
      simp only [CreditServer.act] at ha
      split at ha
      next =>
        obtain ⟨-, rfl⟩ := Option.ite_none_right_eq_some.mp ha |>.imp_right Option.some.inj
        exact hs
      next => cases ha
    | fetch i =>
      obtain ⟨-, rfl⟩ := Option.ite_none_right_eq_some.mp ha |>.imp_right Option.some.inj
      exact hs
    | deliver i =>
      simp only [CreditServer.act] at ha
      split at ha
      next =>
        rw [← Option.some.inj ha]
        exact hs
      next => cases ha

/-- The client posts `m` messages. -/
theorem send (h : CreditOk k n queue posted scnt s) {m : Nat} (hq : q < n)
    (hw : scnt q + m ≤ s.creditBuf q + k.window) (hs : k.sendable (scnt q + m)) :
    CreditOk k n queue posted (Function.update scnt q (scnt q + m)) s where
  chans := by
    refine CreditServer.chans_of_update (q := q) h.chans (fun p => ?_) ((h.chans q).send hw hs)
    by_cases hp : p = q
    · subst hp
      simp [CreditServer.chan]
    · simp [hp]
  idle p hp := by
    rw [Function.update_of_ne (by omega)]
    exact h.idle p hp
  supplied := h.supplied

/-- The server takes a message; with `b` a list of receives follows. -/
theorem receive (h : CreditOk k n queue posted scnt s) (hk : k.Counts) {m : Nat} {rest : List Nat}
    {due b : Bool} (hpc : s.server = .poll) (hcq : s.recvCq = q :: rest)
    (hd : due = true ↔ k.since (s.rcntForQp q + 1) = 0)
    (hp : posted (s.rcntForQp q + 1) = posted (s.rcntForQp q) + if b then m else 0) :
    CreditOk k n queue posted scnt ((if b then (s.takeRecv q rest).postRecv q (queue q) m
      else s.takeRecv q rest).countRecv q due) where
  chans := by
    have hwait : (s.chan q (scnt q)).waits = false := by
      simp [CreditServer.chan, CreditServerPc.waits, hpc]
    have hqueued : 0 < (s.chan q (scnt q)).queued := by
      simp [CreditServer.chan, hcq]
    refine CreditServer.chans_of_update (q := q) h.chans (fun p => ?_)
      ((h.chans q).receive hk hwait hqueued hd)
    rw [CreditServer.chan_receive hpc hcq]
    split
    next he => rw [he]
    next => rfl
  idle := h.idle
  supplied r := by
    have hs := h.supplied r
    have hq : q < n := by
      have hr := (h.chans q).received
      have ha := (h.chans q).arrived_le
      simp only [CreditServer.chan, hcq, List.count_cons_self] at hr ha
      exact h.lt_of_arrived (by omega)
    have hsum : ∑ p ∈ Finset.range n with queue p = r,
        posted (Function.update s.rcntForQp q (s.rcntForQp q + 1) p) =
          ∑ p ∈ Finset.range n with queue p = r, posted (s.rcntForQp p) +
            if queue q = r then if b then m else 0 else 0 := by
      rw [← sum_queue_update hq]
      refine Finset.sum_congr rfl fun p _ => ?_
      by_cases he : p = q
      · subst he
        rw [Function.update_self, Function.update_self, hp]
      · rw [Function.update_of_ne he, Function.update_of_ne he]
    cases b with
    | true =>
      simp only [if_true, CreditServer.countRecv, CreditServer.postRecv, CreditServer.takeRecv,
        hsum]
      by_cases hr : queue q = r
      · subst hr
        rw [Function.update_self, if_pos rfl]
        omega
      · rw [Function.update_of_ne fun he => hr he.symm, if_neg hr]
        exact hs
    | false =>
      simp only [Bool.false_eq_true, if_false, CreditServer.countRecv, CreditServer.takeRecv, hsum,
        ite_self]
      exact hs

/-- The messages on the way find receives. -/
theorem covered (h : CreditOk k n queue posted scnt s) (hm : Monotone posted)
    (hs : ∀ g m, k.since g = 0 → k.sendable m → m ≤ g + k.window → m ≤ posted g) (hq : q < n) :
    scnt q - s.arrived q ≤ s.rq (queue q) := by
  have hle : ∀ p, scnt p ≤ posted (s.rcntForQp p) := fun p => (h.chans p).sent_le hm hs
  have ha : ∀ p, s.arrived p ≤ scnt p := fun p => (h.chans p).arrived_le
  have hsum : ∑ p ∈ Finset.range n with queue p = queue q,
      Function.update s.arrived q (s.arrived q + (scnt q - s.arrived q)) p ≤
        ∑ p ∈ Finset.range n with queue p = queue q, posted (s.rcntForQp p) := by
    refine Finset.sum_le_sum fun p _ => ?_
    by_cases he : p = q
    · subst he
      rw [Function.update_self]
      have := hle p
      have := ha p
      omega
    · rw [Function.update_of_ne he]
      exact le_trans (ha p) (hle p)
  rw [sum_queue_update hq, if_pos rfl, ← h.supplied] at hsum
  omega

end CreditOk

end Perftest
