import Perftest.Lib.Session
import Perftest.Lib.Transition

namespace Perftest

open Session

def KV_BUF_SIZE : Nat := 2048

abbrev Bytes := List UInt8

inductive Role where
  | client
  | server
deriving DecidableEq, Repr

def Role.peer : Role → Role
  | client => server
  | server => client

/-- Where a side stands in `rdma_write_data` or `rdma_read_data`. -/
inductive ControlStage where
  | idle
  | copied
  | waiting
  | polled
  | copiedOut (data : Bytes)
deriving DecidableEq

/-- The posted send: taken from the buffer by the device, placed in the peer's buffer, and then
completed. -/
inductive Outgoing where
  | none
  | posted
  | fetched (data : Bytes)
  | delivered
deriving DecidableEq

/-- One side of the control connection with its one buffer `ctx->buf[0]`, its receive requests and
its completion queues. `arrived` records the last message the device placed. -/
structure ControlNode (ρ : Type) where
  prog : Prog ρ
  stage : ControlStage
  buf : Nat → UInt8
  out : Outgoing
  sendCq : Nat
  recvPosted : Nat
  recvCq : Nat
  arrived : Bytes

def store (buf : Nat → UInt8) (data : Bytes) : Nat → UInt8 :=
  fun i => (data[i]?).getD (buf i)

def load (buf : Nat → UInt8) (n : Nat) : Bytes := (List.range n).map buf

theorem load_store (buf : Nat → UInt8) (data : Bytes) :
    load (store buf data) data.length = data := by
  apply List.ext_getElem
  · simp [load]
  · intro i h1 h2
    simp [load, store, h2]

inductive ControlAction where
  | copyIn
  | post
  | fetch
  | deliver
  | complete
  | pollSend
  | pollRecv
  | copyOut
  | repost
deriving DecidableEq, Repr

variable {ρ : Type}

/-- The steps of one side and of its device that touch nothing of the peer. -/
def ControlNode.act (x : ControlNode ρ) : ControlAction → Option (ControlNode ρ)
  | .copyIn => match x.stage, x.prog with
    | .idle, .write data _ => some { x with buf := store x.buf data, stage := .copied }
    | _, _ => none
  | .post => match x.stage, x.out with
    | .copied, .none => some { x with out := .posted, stage := .waiting }
    | _, _ => none
  | .fetch => match x.out, x.prog with
    | .posted, .write data _ => some { x with out := .fetched (load x.buf data.length) }
    | _, _ => none
  | .deliver => none
  | .complete => match x.out with
    | .delivered => some { x with out := .none, sendCq := x.sendCq + 1 }
    | _ => none
  | .pollSend => match x.stage, x.prog with
    | .waiting, .write _ k =>
      if 0 < x.sendCq then some { x with sendCq := x.sendCq - 1, stage := .idle, prog := k }
      else none
    | _, _ => none
  | .pollRecv => match x.stage, x.prog with
    | .idle, .read _ _ =>
      if 0 < x.recvCq then some { x with recvCq := x.recvCq - 1, stage := .polled } else none
    | _, _ => none
  | .copyOut => match x.stage, x.prog with
    | .polled, .read size _ => some { x with stage := .copiedOut (load x.buf size) }
    | _, _ => none
  | .repost => match x.stage, x.prog with
    | .copiedOut data, .read _ k =>
      some { x with recvPosted := x.recvPosted + 1, stage := .idle, prog := k data }
    | _, _ => none

/-- The device of the peer places a message in the buffer of a posted receive. -/
def ControlNode.receive (y : ControlNode ρ) (data : Bytes) : ControlNode ρ :=
  { y with
    buf := store y.buf data, recvPosted := y.recvPosted - 1, recvCq := y.recvCq + 1
    arrived := data }

abbrev ControlState (ρ : Type) := Role → ControlNode ρ

/-- A message waits until the peer has a receive posted; it fits the receive's length. -/
def controlAct (a : Role × ControlAction) (s : ControlState ρ) : Option (ControlState ρ) :=
  if a.2 = .deliver then
    match (s a.1).out with
    | .fetched data =>
      if 0 < (s a.1.peer).recvPosted ∧ data.length ≤ KV_BUF_SIZE then
        some fun r => if r = a.1 then { s a.1 with out := .delivered }
          else (s r).receive data
      else none
    | _ => none
  else ((s a.1).act a.2).map (Function.update s a.1)

namespace ControlNode

variable {x y : ControlNode ρ} {p : Prog ρ} {w : Nat}

/-- No send is in progress. -/
def Quiet (x : ControlNode ρ) : Prop := x.out = .none ∧ x.sendCq = 0

/-- A receive is posted and nothing has arrived. -/
def Ready (x : ControlNode ρ) : Prop := x.recvPosted = 1 ∧ x.recvCq = 0

/-- The send was delivered; `i` steps are left until its completion is polled. -/
def Sent (x : ControlNode ρ) (i : Nat) : Prop :=
  i = 2 ∧ x.out = .delivered ∧ x.sendCq = 0 ∨ i = 1 ∧ x.out = .none ∧ x.sendCq = 1

/-- The buffer holds the message that arrived. -/
def Holding (x : ControlNode ρ) (size : Nat) (data : Bytes) : Prop :=
  x.arrived = data ∧ data.length = size ∧ load x.buf size = data

/-- `x` stands at `p` or is behind it: it has yet to finish a send that was delivered or a message
that arrived. `w` counts the steps it has left before `p`, and the three steps of a send in front
of its delivery. -/
inductive Behind (x : ControlNode ρ) : Prog ρ → Nat → Prop
  | idle (hs : x.stage = .idle) (ho : x.Quiet) (hr : x.Ready) : Behind x x.prog 3
  | copied {data : Bytes} {k : Prog ρ} (hp : x.prog = .write data k) (hs : x.stage = .copied)
      (hb : load x.buf data.length = data) (ho : x.Quiet) (hr : x.Ready) : Behind x x.prog 2
  | posted {data : Bytes} {k : Prog ρ} (hp : x.prog = .write data k) (hs : x.stage = .waiting)
      (hb : load x.buf data.length = data) (ho : x.out = .posted ∧ x.sendCq = 0)
      (hr : x.Ready) : Behind x x.prog 1
  | fetched {data : Bytes} {k : Prog ρ} (hp : x.prog = .write data k) (hs : x.stage = .waiting)
      (ho : x.out = .fetched data ∧ x.sendCq = 0) (hr : x.Ready) : Behind x x.prog 0
  | sent {data : Bytes} {k : Prog ρ} {i : Nat} (hp : x.prog = .write data k)
      (hs : x.stage = .waiting) (ho : x.Sent i) (hr : x.Ready) : Behind x k (3 + i)
  | full {size : Nat} {k : Bytes → Prog ρ} {data : Bytes} (hp : x.prog = .read size k)
      (hs : x.stage = .idle) (ho : x.Quiet) (hr : x.recvPosted = 0 ∧ x.recvCq = 1)
      (hh : x.Holding size data) : Behind x (k data) 6
  | polled {size : Nat} {k : Bytes → Prog ρ} {data : Bytes} (hp : x.prog = .read size k)
      (hs : x.stage = .polled) (ho : x.Quiet) (hr : x.recvPosted = 0 ∧ x.recvCq = 0)
      (hh : x.Holding size data) : Behind x (k data) 5
  | copiedOut {size : Nat} {k : Bytes → Prog ρ} {data : Bytes} (hp : x.prog = .read size k)
      (hs : x.stage = .copiedOut data) (ho : x.Quiet) (hr : x.recvPosted = 0 ∧ x.recvCq = 0)
      (ha : x.arrived = data) : Behind x (k data) 4
  | sentFull {d : Bytes} {size : Nat} {k : Bytes → Prog ρ} {data : Bytes} {i : Nat}
      (hp : x.prog = .write d (.read size k)) (hs : x.stage = .waiting) (ho : x.Sent i)
      (hr : x.recvPosted = 0 ∧ x.recvCq = 1) (hh : x.Holding size data) :
      Behind x (k data) (6 + i)

/-- A step of one side keeps where it stands and uses up one step. -/
theorem Behind.act {a : ControlAction} (h : Behind x p w) (ha : x.act a = some y) :
    ∃ w', Behind y p w' ∧ w = w' + 1 := by
  cases a with
  | copyIn =>
    simp only [ControlNode.act] at ha
    split at ha
    next data k hst hpr =>
      cases Option.some.inj ha
      cases h with
      | idle hs ho hr => exact ⟨2, .copied hpr rfl (load_store x.buf data) ho hr, rfl⟩
      | _ => simp_all
    next => simp at ha
  | post =>
    simp only [ControlNode.act] at ha
    split at ha
    next hst hout =>
      cases Option.some.inj ha
      cases h with
      | copied hp hs hb ho hr => exact ⟨1, .posted hp rfl hb ⟨rfl, ho.2⟩ hr, rfl⟩
      | _ => simp_all
    next => simp at ha
  | fetch =>
    simp only [ControlNode.act] at ha
    split at ha
    next data k hout hpr =>
      cases Option.some.inj ha
      cases h with
      | posted hp hs hb ho hr =>
        rw [hpr] at hp
        cases hp
        exact ⟨0, .fetched hpr hs ⟨congrArg Outgoing.fetched hb, ho.2⟩ hr, rfl⟩
      | _ => simp_all [Quiet, Sent]
    next => simp at ha
  | deliver => simp [ControlNode.act] at ha
  | complete =>
    simp only [ControlNode.act] at ha
    split at ha
    next hout =>
      cases Option.some.inj ha
      cases h with
      | sent hp hs ho hr =>
        rcases ho with ⟨rfl, -, hc⟩ | ⟨-, hn, -⟩
        · exact ⟨3 + 1, .sent hp hs (Or.inr ⟨rfl, rfl, by simp [hc]⟩) hr, rfl⟩
        · simp [hn] at hout
      | sentFull hp hs ho hr hh =>
        rcases ho with ⟨rfl, -, hc⟩ | ⟨-, hn, -⟩
        · exact ⟨6 + 1, .sentFull hp hs (Or.inr ⟨rfl, rfl, by simp [hc]⟩) hr hh, rfl⟩
        · simp [hn] at hout
      | _ => simp_all [Quiet]
    next => simp at ha
  | pollSend =>
    simp only [ControlNode.act] at ha
    split at ha
    next data k hst hpr =>
      split at ha
      next hcq =>
        cases Option.some.inj ha
        cases h with
        | sent hp hs ho hr =>
          rw [hpr] at hp
          cases hp
          rcases ho with ⟨-, -, hc⟩ | ⟨rfl, hn, hc⟩
          · omega
          · exact ⟨3, .idle rfl ⟨hn, by simp [hc]⟩ hr, rfl⟩
        | sentFull hp hs ho hr hh =>
          rw [hpr] at hp
          cases hp
          rcases ho with ⟨-, -, hc⟩ | ⟨rfl, hn, hc⟩
          · omega
          · exact ⟨6, .full rfl rfl ⟨hn, by simp [hc]⟩ hr hh, rfl⟩
        | _ => simp_all
      next => simp at ha
    next => simp at ha
  | pollRecv =>
    simp only [ControlNode.act] at ha
    split at ha
    next size k hst hpr =>
      split at ha
      next hcq =>
        cases Option.some.inj ha
        cases h with
        | full hp hs ho hr hh => exact ⟨5, .polled hp rfl ho ⟨hr.1, by simp [hr.2]⟩ hh, rfl⟩
        | idle hs ho hr =>
          have := hr.2
          omega
        | _ => simp_all
      next => simp at ha
    next => simp at ha
  | copyOut =>
    simp only [ControlNode.act] at ha
    split at ha
    next size k hst hpr =>
      cases Option.some.inj ha
      cases h with
      | polled hp hs ho hr hh =>
        rw [hpr] at hp
        cases hp
        exact ⟨4, .copiedOut hpr (congrArg ControlStage.copiedOut hh.2.2) ho hr hh.1, rfl⟩
      | _ => simp_all
    next => simp at ha
  | repost =>
    simp only [ControlNode.act] at ha
    split at ha
    next data size k hst hpr =>
      cases Option.some.inj ha
      cases h with
      | copiedOut hp hs ho hr hd =>
        rw [hpr] at hp
        cases hp
        rw [hst] at hs
        cases hs
        exact ⟨3, .idle rfl ho ⟨by simp [hr.1], hr.2⟩, rfl⟩
      | _ => simp_all
    next => simp at ha

/-- A delivery takes the two sides past the message: the sender has its completion to wait for,
the receiver a message to take. -/
theorem Behind.deliver {P : ρ → ρ → Prop} {n wx wy : Nat} {q : Prog ρ} {data : Bytes}
    (hx : Behind x p wx) (hy : Behind y q wy) (hd : Dual KV_BUF_SIZE P n p q)
    (ho : x.out = .fetched data) (hr : 0 < y.recvPosted) :
    ∃ n' p' q' wx' wy', Dual KV_BUF_SIZE P n' p' q' ∧
      Behind { x with out := .delivered } p' wx' ∧ Behind (y.receive data) q' wy' ∧
      9 * n + wx + wy = 9 * n' + wx' + wy' + 1 := by
  cases hx with
  | @fetched d k hp hs hf hrx =>
    have hdd : d = data := by
      rw [hf.1] at ho
      exact Outgoing.fetched.inj ho
    subst hdd
    rw [hp] at hd
    cases hd with
    | @send n' size _ _ k' hsize hl hd =>
      have hsx : Behind { x with out := .delivered } k (3 + 2) :=
        .sent hp hs (Or.inl ⟨rfl, rfl, hf.2⟩) hrx
      have hhold : (y.receive d).Holding size d :=
        ⟨rfl, hsize, by rw [← hsize]; exact load_store y.buf d⟩
      generalize hq : Prog.read size k' = q at hy
      cases hy with
      | idle hsy hoy hry =>
        have hfull : Behind (y.receive d) (k' d) 6 :=
          .full hq.symm hsy hoy ⟨by simp [receive, hry.1], by simp [receive, hry.2]⟩ hhold
        exact ⟨n', k, k' d, 5, 6, hd, hsx, hfull, by omega⟩
      | @sent d' _ i hpy hsy hoy hry =>
        rw [← hq] at hpy
        have hfull : Behind (y.receive d) (k' d) (6 + i) :=
          .sentFull hpy hsy hoy ⟨by simp [receive, hry.1], by simp [receive, hry.2]⟩ hhold
        exact ⟨n', k, k' d, 5, 6 + i, hd, hsx, hfull, by omega⟩
      | copied hpy => simp [hpy] at hq
      | posted hpy => simp [hpy] at hq
      | fetched hpy => simp [hpy] at hq
      | full _ _ _ hry => omega
      | polled _ _ _ hry => omega
      | copiedOut _ _ _ hry => omega
      | sentFull _ _ _ hry => omega
  | idle _ hq => simp [hq.1] at ho
  | copied _ _ _ hq => simp [hq.1] at ho
  | posted _ _ _ hq => simp [hq.1] at ho
  | sent _ _ hq => rcases hq with ⟨-, hq, -⟩ | ⟨-, hq, -⟩ <;> simp [hq] at ho
  | full _ _ hq => simp [hq.1] at ho
  | polled _ _ hq => simp [hq.1] at ho
  | copiedOut _ _ hq => simp [hq.1] at ho
  | sentFull _ _ hq => rcases hq with ⟨-, hq, -⟩ | ⟨-, hq, -⟩ <;> simp [hq] at ho

theorem Behind.outgoing (h : Behind x p w) {data : Bytes} {k : Prog ρ}
    (hp : x.prog = .write data k) :
    (x.stage = .copied ∨ x.out = .posted → load x.buf data.length = data) ∧
      ∀ m, x.out = .fetched m → m = data := by
  cases h with
  | copied hp' _ hb hq =>
    rw [hp] at hp'
    cases hp'
    exact ⟨fun _ => hb, fun m hm => by simp [hq.1] at hm⟩
  | posted hp' _ hb hq =>
    rw [hp] at hp'
    cases hp'
    exact ⟨fun _ => hb, fun m hm => by simp [hq.1] at hm⟩
  | fetched hp' hs hq =>
    rw [hp] at hp'
    cases hp'
    refine ⟨fun hc => ?_, fun m hm => ?_⟩
    · simp [hs, hq.1] at hc
    · rw [hq.1] at hm
      exact (Outgoing.fetched.inj hm).symm
  | sent _ hs hq => rcases hq with ⟨-, hq, -⟩ | ⟨-, hq, -⟩ <;> simp [hs, hq]
  | sentFull _ hs hq => rcases hq with ⟨-, hq, -⟩ | ⟨-, hq, -⟩ <;> simp [hs, hq]
  | idle hs hq => simp [hs, hq.1]
  | full hp' => simp [hp'] at hp
  | polled hp' => simp [hp'] at hp
  | copiedOut hp' => simp [hp'] at hp

theorem Behind.incoming (h : Behind x p w) (hc : 0 < x.recvCq ∨ x.stage = .polled) :
    load x.buf x.arrived.length = x.arrived ∧
      ∀ size k, x.prog = .read size k → x.arrived.length = size := by
  cases h with
  | full hp _ _ _ hh =>
    obtain ⟨ha, hl, hb⟩ := hh
    refine ⟨by rw [ha, hl, hb], fun size k hk => ?_⟩
    rw [hp] at hk
    cases hk
    rw [ha, hl]
  | polled hp _ _ _ hh =>
    obtain ⟨ha, hl, hb⟩ := hh
    refine ⟨by rw [ha, hl, hb], fun size k hk => ?_⟩
    rw [hp] at hk
    cases hk
    rw [ha, hl]
  | sentFull hp _ _ _ hh =>
    obtain ⟨ha, hl, hb⟩ := hh
    refine ⟨by rw [ha, hl, hb], fun size k hk => ?_⟩
    simp [hp] at hk
  | _ => simp_all [Ready]

theorem Behind.copied_arrived (h : Behind x p w) {d : Bytes} (hs : x.stage = .copiedOut d) :
    d = x.arrived := by
  cases h with
  | copiedOut _ hs' _ _ ha =>
    rw [hs] at hs'
    cases hs'
    exact ha.symm
  | _ => simp_all

theorem Behind.of_ret (h : Behind x p w) {r : ρ} (hp : x.prog = .ret r) : p = .ret r := by
  cases h with
  | idle => exact hp
  | copied => exact hp
  | posted => exact hp
  | fetched => exact hp
  | _ => simp_all

/-- A side that cannot go on alone stands at its program, ready to receive: it is done, waits for a
message, or its own message waits for the peer. -/
theorem Behind.enabled (h : Behind x p w) : (∃ a y, x.act a = some y) ∨
    x.prog = p ∧ x.Ready ∧
      ∀ data k, p = .write data k → x.out = .fetched data := by
  cases h with
  | idle hs ho hr =>
    cases hp : x.prog with
    | write data k => exact Or.inl ⟨.copyIn, by simp [ControlNode.act, hs, hp]⟩
    | read size k => exact Or.inr ⟨rfl, hr, by simp⟩
    | ret r => exact Or.inr ⟨rfl, hr, by simp⟩
  | copied hp hs hb ho => exact Or.inl ⟨.post, by simp [ControlNode.act, hs, ho.1]⟩
  | posted hp hs hb ho => exact Or.inl ⟨.fetch, by simp [ControlNode.act, hp, ho.1]⟩
  | fetched hp hs ho hr =>
    refine Or.inr ⟨rfl, hr, fun data k hk => ?_⟩
    rw [hp] at hk
    cases hk
    exact ho.1
  | sent hp hs ho =>
    rcases ho with ⟨-, ho, -⟩ | ⟨-, -, hc⟩
    · exact Or.inl ⟨.complete, by simp [ControlNode.act, ho]⟩
    · exact Or.inl ⟨.pollSend, by simp [ControlNode.act, hs, hp, hc]⟩
  | full hp hs ho hr => exact Or.inl ⟨.pollRecv, by simp [ControlNode.act, hs, hp, hr.2]⟩
  | polled hp hs => exact Or.inl ⟨.copyOut, by simp [ControlNode.act, hs, hp]⟩
  | copiedOut hp hs => exact Or.inl ⟨.repost, by simp [ControlNode.act, hs, hp]⟩
  | sentFull hp hs ho =>
    rcases ho with ⟨-, ho, -⟩ | ⟨-, -, hc⟩
    · exact Or.inl ⟨.complete, by simp [ControlNode.act, ho]⟩
    · exact Or.inl ⟨.pollSend, by simp [ControlNode.act, hs, hp, hc]⟩

end ControlNode

/-- The two sides stand at, or behind, programs that exchange the rest of the messages; `w` bounds
the steps that are left. -/
def ControlInv (a b : ρ) (s : ControlState ρ) (w : Nat) : Prop :=
  ∃ p q n wc ws, Dual KV_BUF_SIZE (fun x y => x = a ∧ y = b) n p q ∧
    (s .client).Behind p wc ∧ (s .server).Behind q ws ∧ w = 9 * n + wc + ws

section Invariant

variable {a b : ρ} {s t : ControlState ρ} {w : Nat}

theorem ControlInv.step {i : Role × ControlAction} (h : ControlInv a b s w)
    (ha : controlAct i s = some t) : ∃ w', ControlInv a b t w' ∧ w = w' + 1 := by
  obtain ⟨p, q, n, wc, ws, hd, hc, hs, rfl⟩ := h
  obtain ⟨r, i⟩ := i
  unfold controlAct at ha
  split at ha
  next =>
    split at ha
    next data ho =>
      split at ha
      next hg =>
        cases Option.some.inj ha
        cases r with
        | client =>
          obtain ⟨n', p', q', wc', ws', hd', hc', hs', hw⟩ := hc.deliver hs hd ho hg.1
          exact ⟨_, ⟨p', q', n', wc', ws', hd', hc', hs', rfl⟩, hw⟩
        | server =>
          obtain ⟨n', q', p', ws', wc', hd', hs', hc', hw⟩ := hs.deliver hc hd.symm ho hg.1
          exact ⟨_, ⟨p', q', n', wc', ws', hd'.symm, hc', hs', rfl⟩, by omega⟩
      next => simp at ha
    next => simp at ha
  next =>
    obtain ⟨y, hy, rfl⟩ := Option.map_eq_some_iff.mp ha
    cases r with
    | client =>
      obtain ⟨w', hb, hw⟩ := hc.act hy
      refine ⟨9 * n + w' + ws, ⟨p, q, n, w', ws, hd, ?_, ?_, rfl⟩, by omega⟩
      · simpa using hb
      · simpa using hs
    | server =>
      obtain ⟨w', hb, hw⟩ := hs.act hy
      refine ⟨9 * n + wc + w', ⟨p, q, n, wc, w', hd, ?_, ?_, rfl⟩, by omega⟩
      · simpa using hc
      · simpa using hb

/-- The steps of a run are used up one by one. -/
theorem ControlInv.run {as : List (Role × ControlAction)} (h : ControlInv a b s w)
    (hr : Transition.run controlAct as s = some t) :
    ∃ w', ControlInv a b t w' ∧ w = w' + as.length := by
  induction as generalizing s w with
  | nil =>
    rw [← Option.some.inj hr]
    exact ⟨w, h, rfl⟩
  | cons i as ih =>
    rw [Transition.run, List.foldlM_cons] at hr
    obtain ⟨u, hu, hr⟩ := Option.bind_eq_some_iff.mp hr
    obtain ⟨w1, h1, hw1⟩ := h.step hu
    obtain ⟨w2, h2, hw2⟩ := ih h1 hr
    exact ⟨w2, h2, by simp only [List.length_cons]; omega⟩

end Invariant

end Perftest
