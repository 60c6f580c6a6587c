import Perftest.ControlBuffer
import Perftest.Lib.CMachine

namespace Perftest

open Session

/-- Each buffer keeps the bytes in use, every message is read with the size it was written with, the
results are `a` and `b`, and until both sides returned some step is possible. -/
structure ControlOk {ρ : Type} (a b : ρ) (s : ControlState ρ) : Prop where
  outgoing_intact : ∀ r data k, (s r).prog = .write data k →
    ((s r).stage = .copied ∨ (s r).out = .posted → load (s r).buf data.length = data) ∧
      ∀ m, (s r).out = .fetched m → m = data
  incoming_intact : ∀ r, 0 < (s r).recvCq ∨ (s r).stage = .polled →
    load (s r).buf (s r).arrived.length = (s r).arrived ∧
      ∀ size k, (s r).prog = .read size k → (s r).arrived.length = size
  copied_arrived : ∀ r d, (s r).stage = .copiedOut d → d = (s r).arrived
  results : (∀ x, (s .client).prog = .ret x → x = a) ∧ ∀ y, (s .server).prog = .ret y → y = b
  progress : (∃ i t, controlAct i s = some t) ∨
    (s .client).prog = .ret a ∧ (s .server).prog = .ret b

section Safe

variable {ρ : Type} {a b : ρ} {s : ControlState ρ} {w : Nat}

theorem ControlInv.progress (h : ControlInv a b s w) : (∃ i t, controlAct i s = some t) ∨
    (s .client).prog = .ret a ∧ (s .server).prog = .ret b := by
  obtain ⟨p, q, n, wc, ws, hd, hc, hs, -⟩ := h
  rcases hc.enabled with ⟨i, y, hy⟩ | ⟨hpc, hrc, hoc⟩
  · refine Or.inl ⟨(.client, i), ?_⟩
    have hne : i ≠ .deliver := by
      rintro rfl
      simp [ControlNode.act] at hy
    simp [controlAct, hne, hy]
  · rcases hs.enabled with ⟨i, y, hy⟩ | ⟨hps, hrs, hos⟩
    · refine Or.inl ⟨(.server, i), ?_⟩
      have hne : i ≠ .deliver := by
        rintro rfl
        simp [ControlNode.act] at hy
      simp [controlAct, hne, hy]
    · cases hd with
      | ret hab =>
        obtain ⟨rfl, rfl⟩ := hab
        exact Or.inr ⟨hpc, hps⟩
      | send hsize hl _ =>
        have ho := hoc _ _ rfl
        refine Or.inl ⟨(.client, .deliver), ?_⟩
        simp [controlAct, ho, Role.peer, hrs.1, hsize, hl]
      | recv hsize hl _ =>
        have ho := hos _ _ rfl
        refine Or.inl ⟨(.server, .deliver), ?_⟩
        simp [controlAct, ho, Role.peer, hrc.1, hsize, hl]

theorem ControlInv.ok (h : ControlInv a b s w) : ControlOk a b s := by
  have hprog := h.progress
  obtain ⟨p, q, n, wc, ws, hd, hc, hs, -⟩ := h
  have hb : ∀ r, ∃ p w, (s r).Behind p w := by
    intro r
    cases r with
    | client => exact ⟨p, wc, hc⟩
    | server => exact ⟨q, ws, hs⟩
  refine ⟨fun r data k hp => ?_, fun r hr => ?_, fun r d hr => ?_, ⟨fun x hx => ?_, fun y hy => ?_⟩,
    hprog⟩
  · obtain ⟨p', w', h'⟩ := hb r
    exact h'.outgoing hp
  · obtain ⟨p', w', h'⟩ := hb r
    exact h'.incoming hr
  · obtain ⟨p', w', h'⟩ := hb r
    exact h'.copied_arrived hr
  · have hp := hc.of_ret hx
    subst hp
    cases hd with
    | ret hab => exact hab.1
  · have hq := hs.of_ret hy
    subst hq
    cases hd with
    | ret hab => exact hab.2

end Safe

/-- `rdma_write_data` and `rdma_read_data` as steps of a program. -/
def rdmaWriteData (data : Bytes) : Prog Unit := .write data (.ret ())

def rdmaReadData (size : Nat) : Prog Bytes := .read size .ret

def ctxXchgDataRdma (role : Role) (myData : Bytes) (size : Nat) : Prog Bytes :=
  match role with
  | .client => do
    rdmaWriteData myData
    rdmaReadData size
  | .server => do
    let remData ← rdmaReadData size
    rdmaWriteData myData
    pure remData

def writeDataChunked (data : Bytes) : Prog Unit :=
  if _h : data.length = 0 then pure ()
  else do
    rdmaWriteData (data.take (min data.length KV_BUF_SIZE))
    writeDataChunked (data.drop (min data.length KV_BUF_SIZE))
termination_by data.length
decreasing_by
  rw [List.length_drop]
  unfold KV_BUF_SIZE
  omega

def readDataChunked (size : Nat) : Prog Bytes :=
  if _h : size = 0 then pure []
  else do
    let chunk ← rdmaReadData (min size KV_BUF_SIZE)
    let rest ← readDataChunked (size - min size KV_BUF_SIZE)
    pure (chunk ++ rest)
termination_by size
decreasing_by
  unfold KV_BUF_SIZE
  omega

/-- The four bytes of `htonl` of the low 32 bits. -/
def htonl (n : Nat) : Bytes := CMachine.beBytes 4 n

def ntohl (b : Bytes) : Nat := CMachine.beValue b

def ctxXchgDataChunked (role : Role) (myData : Bytes) : Prog Bytes := do
  let remLen ← ctxXchgDataRdma role (htonl myData.length) 4
  match role with
  | .client => do
    writeDataChunked myData
    readDataChunked (ntohl remLen)
  | .server => do
    let remBuf ← readDataChunked (ntohl remLen)
    writeDataChunked myData
    pure remBuf

/-- One exchange with the data that each side passes. -/
inductive XchgCall where
  | data (client server : Bytes)
  | chunked (client server : Bytes)

namespace XchgCall

def mine (role : Role) : XchgCall → Bytes
  | data c s => match role with
    | .client => c
    | .server => s
  | chunked c s => match role with
    | .client => c
    | .server => s

/-- The two sides of `ctx_xchg_data` pass the same size, which fits the posted receive; a chunked
payload has a 32-bit length. -/
def Ok : XchgCall → Prop
  | data c s => c.length = s.length ∧ s.length ≤ KV_BUF_SIZE
  | chunked c s => c.length < 2 ^ 32 ∧ s.length < 2 ^ 32

def prog (role : Role) (c : XchgCall) : Prog Bytes :=
  match c with
  | data _ _ => ctxXchgDataRdma role (c.mine role) (c.mine role).length
  | chunked _ _ => ctxXchgDataChunked role (c.mine role)

end XchgCall

def exchangeAll (role : Role) : List XchgCall → Prog (List Bytes)
  | [] => pure []
  | c :: cs => do
    let rem ← c.prog role
    let rest ← exchangeAll role cs
    pure (rem :: rest)

section Matching

theorem ntohl_htonl {n : Nat} (h : n < 2 ^ 32) : ntohl (htonl n) = n :=
  CMachine.beValue_beBytes h

theorem ctxXchgDataRdma_matched {c s : Bytes} {size : Nat} (hc : c.length = size)
    (hs : s.length = size) (hl : size ≤ KV_BUF_SIZE) :
    Matched KV_BUF_SIZE s c (ctxXchgDataRdma .client c size) (ctxXchgDataRdma .server s size) := by
  apply Matched.send hc hl
  apply Matched.symm
  apply Matched.send hs hl
  exact Matched.ret c s

theorem chunked_matched (data : Bytes) :
    Matched KV_BUF_SIZE () data (writeDataChunked data) (readDataChunked data.length) := by
  induction hn : data.length using Nat.strong_induction_on generalizing data with
  | _ n ih =>
    subst hn
    rw [writeDataChunked, readDataChunked]
    by_cases h0 : data.length = 0
    · rw [dif_pos h0, dif_pos h0, List.length_eq_zero_iff.mp h0]
      exact Matched.ret () []
    · rw [dif_neg h0, dif_neg h0]
      have hk : 0 < min data.length KV_BUF_SIZE := by
        unfold KV_BUF_SIZE
        omega
      have htake : (data.take (min data.length KV_BUF_SIZE)).length =
          min data.length KV_BUF_SIZE := by
        rw [List.length_take]
        omega
      have hdrop : (data.drop (min data.length KV_BUF_SIZE)).length =
          data.length - min data.length KV_BUF_SIZE := List.length_drop
      have hi := ih _ (by omega) (data.drop (min data.length KV_BUF_SIZE)) hdrop
      apply Matched.send htake (by omega)
      have hm := hi.map_right fun rest => data.take (min data.length KV_BUF_SIZE) ++ rest
      rw [List.take_append_drop] at hm
      exact hm

theorem ctxXchgDataChunked_matched {c s : Bytes} (hc : c.length < 2 ^ 32)
    (hs : s.length < 2 ^ 32) :
    Matched KV_BUF_SIZE s c (ctxXchgDataChunked .client c) (ctxXchgDataChunked .server s) := by
  have hlen : 4 ≤ KV_BUF_SIZE := by decide
  apply Matched.bind (ctxXchgDataRdma_matched (c := htonl c.length) (s := htonl s.length)
    (CMachine.beBytes_length 4 _) (CMachine.beBytes_length 4 _) hlen)
  dsimp only
  rw [ntohl_htonl hc, ntohl_htonl hs]
  apply (chunked_matched c).bind
  exact (chunked_matched s).symm.map_right fun _ => c

theorem exchangeAll_matched {cs : List XchgCall} (h : ∀ c ∈ cs, c.Ok) :
    Matched KV_BUF_SIZE (cs.map (XchgCall.mine .server)) (cs.map (XchgCall.mine .client))
      (exchangeAll .client cs) (exchangeAll .server cs) := by
  induction cs with
  | nil => exact Matched.ret [] []
  | cons c cs ih =>
    have hi := ih fun x hx => h x (by simp [hx])
    have hc : Matched KV_BUF_SIZE (c.mine .server) (c.mine .client) (c.prog .client)
        (c.prog .server) := by
      have hok := h c (by simp)
      cases c with
      | data x y =>
        have hm := ctxXchgDataRdma_matched hok.1 rfl hok.2
        simpa only [XchgCall.prog, XchgCall.mine, hok.1] using hm
      | chunked x y => exact ctxXchgDataChunked_matched hok.1 hok.2
    apply hc.bind
    exact (((hi.map_right fun rest => c.mine .client :: rest).symm).map_right
      fun rest => c.mine .server :: rest).symm

end Matching

/-- The first receive is posted and both sides are about to make the first call; the buffers hold
anything. -/
def ControlInit (cs : List XchgCall) (s : ControlState (List Bytes)) : Prop :=
  ∀ r, (s r).prog = exchangeAll r cs ∧ (s r).stage = .idle ∧ (s r).Quiet ∧ (s r).Ready

theorem ControlInv.of_init {cs : List XchgCall} {s : ControlState (List Bytes)} {n : Nat}
    (hd : Dual KV_BUF_SIZE (fun x y => x = cs.map (XchgCall.mine .server) ∧
      y = cs.map (XchgCall.mine .client)) n (exchangeAll .client cs) (exchangeAll .server cs))
    (hi : ControlInit cs s) :
    ControlInv (cs.map (XchgCall.mine .server)) (cs.map (XchgCall.mine .client)) s (9 * n + 6) := by
  obtain ⟨hpc, hsc, hqc, hrc⟩ := hi .client
  obtain ⟨hps, hss, hqs, hrs⟩ := hi .server
  refine ⟨_, _, n, 3, 3, hd, ?_, ?_, by omega⟩
  · rw [← hpc]
    exact .idle hsc hqc hrc
  · rw [← hps]
    exact .idle hss hqs hrs

/-- However the steps of the two sides and their devices interleave, every exchange keeps the bytes
in use and hands each side what the other passed; a run takes boundedly many steps and can only
stop when both sides have returned. -/
theorem control_exchange (cs : List XchgCall) (h : ∀ c ∈ cs, c.Ok) :
    (∀ s, Transition.Reachable (ControlInit cs) (Transition.stepOf controlAct) s →
      ControlOk (cs.map (XchgCall.mine .server)) (cs.map (XchgCall.mine .client)) s) ∧
    ∃ N, ∀ s as t, ControlInit cs s → Transition.run controlAct as s = some t → as.length ≤ N := by
  obtain ⟨n, hd⟩ := exchangeAll_matched h
  constructor
  · intro s hs
    obtain ⟨w, hw⟩ := Transition.Reachable.invariant
      (P := fun s => ∃ w, ControlInv (cs.map (XchgCall.mine .server))
        (cs.map (XchgCall.mine .client)) s w)
      (fun s hi => ⟨_, ControlInv.of_init hd hi⟩)
      (fun s t ⟨w, hw⟩ ⟨i, hi⟩ => by
        obtain ⟨w', hw', -⟩ := hw.step hi
        exact ⟨w', hw'⟩) hs
    exact hw.ok
  · refine ⟨9 * n + 6, fun s as t hi hr => ?_⟩
    obtain ⟨w', -, hw⟩ := (ControlInv.of_init hd hi).run hr
    omega

/-- One byte each way. -/
def byteExchange : List XchgCall := [.data [1] [2]]

def byteExchangeStart : ControlState (List Bytes) := fun r =>
  { prog := exchangeAll r byteExchange, stage := .idle, buf := fun _ => 0, out := .none
    sendCq := 0, recvPosted := 1, recvCq := 0, arrived := [] }

theorem byteExchange_reaches : ∃ s, Transition.Reachable (ControlInit byteExchange)
    (Transition.stepOf controlAct) s ∧ ∃ x, (s .client).prog = .ret x := by
  obtain ⟨t, ht, hp⟩ := Transition.exists_of_run (ControlInit byteExchange) controlAct
    [(.client, .copyIn), (.client, .post), (.client, .fetch), (.client, .deliver),
      (.server, .pollRecv), (.server, .copyOut), (.server, .repost), (.server, .copyIn),
      (.server, .post), (.server, .fetch), (.server, .deliver), (.client, .complete),
      (.client, .pollSend), (.client, .pollRecv), (.client, .copyOut), (.client, .repost)]
    byteExchangeStart
    (fun s => match (s .client).prog with
      | .ret _ => true
      | _ => false)
    (fun r => by cases r <;> exact ⟨rfl, rfl, ⟨rfl, rfl⟩, ⟨rfl, rfl⟩⟩) (by decide +kernel)
  refine ⟨t, ht, ?_⟩
  split at hp
  next x hx => exact ⟨x, hx⟩
  next => simp at hp

theorem byteExchange_received : ∃ s, Transition.Reachable (ControlInit byteExchange)
    (Transition.stepOf controlAct) s ∧ (s .client).prog = .ret [[2]] := by
  obtain ⟨s, hs, x, hx⟩ := byteExchange_reaches
  have hok := (control_exchange byteExchange (by
    intro c hc
    rw [List.mem_singleton.mp hc]
    exact ⟨rfl, by decide⟩)).1 s hs
  refine ⟨s, hs, ?_⟩
  rw [hx, hok.results.1 x hx]
  rfl

end Perftest
