import Mathlib.Tactic

namespace Perftest

structure Sge where
  addr : Nat
  length : Nat
deriving DecidableEq, Repr

/-- The address that `set_up_connection` publishes for QP `i`: with data validation the pattern
buffers for READ and the receive slots for WRITE, else the second half of the buffer. -/
def setUpConnectionVaddr (mrPerQp dataValidation isRead : Bool) (buf : Nat → Nat)
    (buffSize numOfQps recvSlotsOffset qpRecvSize i : Nat) : Nat :=
  if mrPerQp then buf i + buffSize
  else if dataValidation then
    if isRead then buf 0 else buf 0 + recvSlotsOffset + i * qpRecvSize
  else buf 0 + (numOfQps + i) * buffSize

def roundUp (value alignment : Nat) : Nat :=
  if value % alignment = 0 then value else alignment * (value / alignment + 1)

/-- The macro `INC`. -/
def incSize (size cacheLineSize : Nat) : Nat :=
  if cacheLineSize < size then roundUp size cacheLineSize else cacheLineSize

theorem le_roundUp {v a : Nat} (ha : 0 < a) : v ≤ roundUp v a := by
  unfold roundUp
  split
  · exact Nat.le_refl v
  · rw [Nat.mul_add]
    have := Nat.div_add_mod v a
    have := Nat.mod_lt v ha
    omega

theorem le_incSize {v cls : Nat} (hc : 0 < cls) : v ≤ incSize v cls := by
  unfold incSize
  split
  · exact le_roundUp hc
  · omega

end Perftest
