import Mathlib.Logic.Function.Basic
import Perftest.Lib.CMachine
import Perftest.Lib.Transition

namespace Perftest

open CMachine

def VALIDATION_QUEUE_SIZE : Nat := 1048576

/-- The four fields that `work_queue_push` takes and `work_queue_try_pop` returns. -/
@[ext]
structure WorkItem where
  qpId : UInt32
  markerEpoch : UInt64
  chunkId : UInt16
  expectedPattern : UInt8
deriving DecidableEq, Repr

structure ValidationWorkItem extends WorkItem where
  valid : Bool
deriving DecidableEq, Repr

/-- A thread of `work_queue_push`. A loaded counter is kept as the number of increments it stands
for; the code sees its low 32 bits. `store item k n` has claimed position `k` and made `n` stores. -/
inductive Producer where
  | idle
  | entered (item : WorkItem)
  | gotHead (item : WorkItem) (head : Nat)
  | gotTail (item : WorkItem) (head tail : Nat)
  | store (item : WorkItem) (k n : Nat)
deriving DecidableEq, Repr

/-- A thread of `work_queue_try_pop`; `copy k n out` has copied `n` fields of position `k`. -/
inductive Consumer where
  | idle
  | gotTail (tail : Nat)
  | gotHead (tail : Nat)
  | claimed (k : Nat)
  | copy (k n : Nat) (out : WorkItem)
deriving DecidableEq, Repr

/-- The queue with its threads. `head` and `tail` count all increments of the 32-bit words. The last
four fields are history: the item of each claimed position, the positions whose push returned true,
those whose flag was cleared by their pop, and what the pops returned. -/
structure ValidationWorkQueue where
  items : Nat → ValidationWorkItem
  head : Nat
  tail : Nat
  producers : Nat → Producer
  consumers : Nat → Consumer
  pushed : Nat → WorkItem
  published : Nat → Bool
  released : Nat → Bool
  returned : List (Nat × WorkItem)

/-- `index & (VALIDATION_QUEUE_SIZE - 1)`. -/
def slotOf (k : Nat) : Nat := u32 k % VALIDATION_QUEUE_SIZE

/-- The `n`-th store of `work_queue_push` into the fields of a slot. -/
def storeField (item : WorkItem) : Nat → ValidationWorkItem → ValidationWorkItem
  | 0, v => { v with qpId := item.qpId }
  | 1, v => { v with markerEpoch := item.markerEpoch }
  | 2, v => { v with chunkId := item.chunkId }
  | _, v => { v with expectedPattern := item.expectedPattern }

/-- The `n`-th copy of `work_queue_try_pop` out of a slot. -/
def copyField (v : ValidationWorkItem) : Nat → WorkItem → WorkItem
  | 0, out => { out with qpId := v.qpId }
  | 1, out => { out with markerEpoch := v.markerEpoch }
  | 2, out => { out with chunkId := v.chunkId }
  | _, out => { out with expectedPattern := v.expectedPattern }

namespace ValidationWorkQueue

def setProducer (q : ValidationWorkQueue) (p : Nat) (l : Producer) : ValidationWorkQueue :=
  { q with producers := Function.update q.producers p l }

def setConsumer (q : ValidationWorkQueue) (c : Nat) (l : Consumer) : ValidationWorkQueue :=
  { q with consumers := Function.update q.consumers c l }

/-- The memory of `reset_validation_state`, before any thread runs. -/
def zero : ValidationWorkQueue :=
  { items := fun _ => ⟨⟨0, 0, 0, 0⟩, false⟩
    head := 0
    tail := 0
    producers := fun _ => .idle
    consumers := fun _ => .idle
    pushed := fun _ => ⟨0, 0, 0, 0⟩
    published := fun _ => false
    released := fun _ => false
    returned := [] }

end ValidationWorkQueue

/-- The atomic steps of producer `p` and of consumer `c`. -/
inductive QueueStep where
  | push (p : Nat) (item : WorkItem)
  | loadHead (p : Nat)
  | loadTail (p : Nat)
  | casHead (p : Nat)
  | store (p : Nat)
  | popTail (c : Nat)
  | popHead (c : Nat)
  | casTail (c : Nat)
  | spin (c : Nat)
  | copy (c : Nat)

namespace ValidationWorkQueue

/-- One atomic step. A push that finds the queue full and a pop that finds it empty or loses the
exchange return false, which makes their thread idle. -/
def act : QueueStep → ValidationWorkQueue → Option ValidationWorkQueue
  | .push p item, q => match q.producers p with
    | .idle => some (q.setProducer p (.entered item))
    | _ => none
  | .loadHead p, q => match q.producers p with
    | .entered item => some (q.setProducer p (.gotHead item q.head))
    | _ => none
  | .loadTail p, q => match q.producers p with
    | .gotHead item h =>
      if VALIDATION_QUEUE_SIZE ≤ subU32 (u32 h) (u32 q.tail) then some (q.setProducer p .idle)
      else some (q.setProducer p (.gotTail item h q.tail))
    | _ => none
  | .casHead p, q => match q.producers p with
    | .gotTail item h _ =>
      if u32 q.head = u32 h then
        some { q.setProducer p (.store item q.head 0) with
          head := q.head + 1
          pushed := Function.update q.pushed q.head item }
      else some (q.setProducer p (.entered item))
    | _ => none
  | .store p, q => match q.producers p with
    | .store item k n =>
      if n < 4 then
        some { q.setProducer p (.store item k (n + 1)) with
          items := Function.update q.items (slotOf k) (storeField item n (q.items (slotOf k))) }
      else
        some { q.setProducer p .idle with
          items := Function.update q.items (slotOf k) { q.items (slotOf k) with valid := true }
          published := Function.update q.published k true }
    | _ => none
  | .popTail c, q => match q.consumers c with
    | .idle => some (q.setConsumer c (.gotTail q.tail))
    | _ => none
  | .popHead c, q => match q.consumers c with
    | .gotTail t =>
      if u32 t = u32 q.head then some (q.setConsumer c .idle)
      else some (q.setConsumer c (.gotHead t))
    | _ => none
  | .casTail c, q => match q.consumers c with
    | .gotHead t =>
      if u32 q.tail = u32 t then
        some { q.setConsumer c (.claimed q.tail) with tail := q.tail + 1 }
      else some (q.setConsumer c .idle)
    | _ => none
  | .spin c, q => match q.consumers c with
    | .claimed k =>
      if (q.items (slotOf k)).valid then some (q.setConsumer c (.copy k 0 ⟨0, 0, 0, 0⟩)) else some q
    | _ => none
  | .copy c, q => match q.consumers c with
    | .copy k n out =>
      if n < 4 then some (q.setConsumer c (.copy k (n + 1) (copyField (q.items (slotOf k)) n out)))
      else
        some { q.setConsumer c .idle with
          items := Function.update q.items (slotOf k) { q.items (slotOf k) with valid := false }
          released := Function.update q.released k true
          returned := (k, out) :: q.returned }
    | _ => none

def Reachable : ValidationWorkQueue → Prop :=
  Transition.Reachable (· = zero) (Transition.stepOf act)

end ValidationWorkQueue

/-- The consumer has claimed position `k` and not cleared its flag yet. -/
def Consumer.Holds : Consumer → Nat → Prop
  | .claimed j, k => j = k
  | .copy j _ _, k => j = k
  | _, _ => False

/-- What the queue promises. Every item whose push returned true is in the queue, claimed by one pop
or returned, with its own fields, by one pop; no producer stores into a slot whose previous item is
still being copied; and a pop waits only for a push that is still storing. -/
structure QueueOk (q : ValidationWorkQueue) : Prop where
  returned_own : ∀ e ∈ q.returned, q.published e.1 = true ∧ e.2 = q.pushed e.1
  returned_once : (q.returned.map Prod.fst).Nodup
  delivered : ∀ k, q.published k = true →
    k ∈ q.returned.map Prod.fst ∨ (∃ c, (q.consumers c).Holds k) ∨ q.tail ≤ k
  held_once : ∀ c k, (q.consumers c).Holds k →
    k ∉ q.returned.map Prod.fst ∧ ∀ c', (q.consumers c').Holds k → c' = c
  stores_safe : ∀ p item k n, q.producers p = .store item k n →
    ∀ c j, (q.consumers c).Holds j → slotOf j = slotOf k → j = k
  waits_safe : ∀ c k, (q.consumers c).Holds k →
    (q.published k = true ∧ (q.items (slotOf k)).valid = true ∧
      (q.items (slotOf k)).toWorkItem = q.pushed k) ∨
    ∃ p n, q.producers p = .store (q.pushed k) k n

/-- An exchange succeeds only on a counter that did not wrap around since it was loaded, and a push
claims a slot only after the pop of its previous item cleared the flag. -/
def QueueStep.unhurried : QueueStep → ValidationWorkQueue → Bool
  | .casHead p, q => match q.producers p with
    | .gotTail _ h _ => u32 q.head ≠ u32 h || (q.head = h &&
        (q.head < VALIDATION_QUEUE_SIZE || q.released (q.head - VALIDATION_QUEUE_SIZE)))
    | _ => true
  | .casTail c, q => match q.consumers c with
    | .gotHead t => u32 q.tail ≠ u32 t || q.tail = t
    | _ => true
  | _, _ => true

def ValidationWorkQueue.UnhurriedReachable : ValidationWorkQueue → Prop :=
  Transition.Reachable (· = .zero)
    (Transition.stepOf (Transition.guarded QueueStep.unhurried ValidationWorkQueue.act))

end Perftest
