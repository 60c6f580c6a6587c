import Perftest.Parameters

namespace Perftest

namespace CoreParameters

variable (c : CoreParameters)

/-- The run has a fixed number of iterations when the depths are clamped. -/
def boundedRun : Bool := c.testMethod ≠ .runInfinitely && c.testType = .iterations

def clampedTxDepth : Nat := if c.boundedRun && c.iters < c.txDepth then c.iters else c.txDepth

def clampedRxDepth : Nat :=
  let rx := if c.verb = .write then DEF_RX_RDMA else c.rxDepth
  if c.boundedRun then
    let rx := if hasRecvComp c.verb && c.iters < rx then c.iters else rx
    if c.connectionType = .ud || c.connectionType = .uc then
      let rx := if c.useSrq && c.iters ≤ MIN_SRQ_UD_RX_DEPTH then MIN_SRQ_UD_RX_DEPTH else rx
      if rx = DEF_RX_SEND then if c.iters < UC_MAX_RX then c.iters else UC_MAX_RX else rx
    else rx
  else rx

def forceDepths : CoreParameters :=
  { c with txDepth := c.clampedTxDepth, rxDepth := c.clampedRxDepth }

/-- Large messages turn CQ moderation off unless the user asked for it. -/
def limitCqMod : CoreParameters :=
  { c with
    cqMod :=
      if MSG_SIZE_CQ_MOD_LIMIT < c.size ∧ c.connectionType ≠ .ud ∧ c.testMethod ≠ .runAll ∧
        ¬ c.useEvent ∧ ¬ c.reqCqMod then DISABLED_CQ_MOD_VALUE else c.cqMod }

def clampCqMod : CoreParameters :=
  { c with cqMod := if c.txDepth < c.cqMod then c.txDepth else c.cqMod }

def forceSize : CoreParameters :=
  { c with size := if c.testMethod = .runAll then MAX_SIZE else c.size }

/-- The geometry of data validation, from the number of QPs at this point. -/
def deriveGeometry : CoreParameters :=
  let chunkSize := deriveValidationChunkSize c.size c.txDepth
  { c with
    validationMode := if c.dataValidation then if c.verb = .read then .read else .write
      else c.validationMode
    validationChunkSize := if c.dataValidation then chunkSize else c.validationChunkSize
    validationChunksPerQp := if c.dataValidation then
        deriveValidationChunksPerQp (c.size * chunkSize) c.numOfQps (c.verb = .read)
      else c.validationChunksPerQp }

def forceTransport : CoreParameters :=
  { c with
    useXrc := c.connectionType = .xrc || c.useXrc
    useSrq := c.connectionType = .xrc || c.connectionType = .dc || c.useSrq
    rxDepth := if c.connectionType = .dc ∧ c.rxDepth < c.numOfQps then c.numOfQps else c.rxDepth }

def forceDualport : CoreParameters :=
  { c with numOfQps := if c.dualport then c.numOfQps * 2 else c.numOfQps }

/-- Post lists belong to the bandwidth tests. -/
def listTest : Bool := c.tst = .bw || c.tst = .latByBw

def forcePostList : CoreParameters :=
  { c with
    cqMod := if 1 < c.postList ∧ c.listTest ∧ ¬ c.reqCqMod then c.postList.toNat else c.cqMod }

def forceDuration : CoreParameters :=
  { c with iters := if c.testType = .duration then 0 else c.iters }

/-- Mac forwarding runs in both directions, with a CQ moderation below the receive depth. -/
def forceMacFwd : CoreParameters :=
  { c with
    duplex := c.duplex || (c.connectionType = .rawEth && c.macFwd)
    cqMod := if c.connectionType = .rawEth ∧ c.macFwd ∧ c.rxDepth ≤ c.cqMod then
        if c.rxDepth < c.txDepth then c.rxDepth else c.txDepth
      else c.cqMod }

def forceMcg : CoreParameters :=
  { c with connectionType := if c.useMcg then .ud else c.connectionType }

def forceInfinitely : CoreParameters :=
  { c with testType := if c.testMethod = .runInfinitely then .duration else c.testType }

def forceSrd : CoreParameters :=
  { c with cqMod := if c.connectionType = .srd then 1 else c.cqMod }

/-- The workaround for an odd receive depth. -/
def evenRxDepth : CoreParameters :=
  { c with
    rxDepth := if hasRecvComp c.verb ∧ c.rxDepth % 2 = 1 ∧ c.testMethod = .runRegular then
        c.rxDepth + 1
      else c.rxDepth }

def setFillCount : CoreParameters :=
  { c with fillCount := fillCountOf c.testType c.iters c.txDepth c.cqMod }

/-- What `force_dependecies` does to the parameters that shape a run. -/
def coreDependecies : CoreParameters :=
  c.forceDepths.limitCqMod.clampCqMod.forceSize.deriveGeometry.forceTransport.forceDualport
    |>.forcePostList.forceDuration.forceMacFwd.forceMcg.forceInfinitely.forceSrd.evenRxDepth
    |>.setFillCount

/-- The receive depth of a receiving test before the changes for DC and for odd depths. -/
def boundedReceiveDepth : Nat :=
  let datagram := c.connectionType = .ud ∨ c.connectionType = .uc
  if c.boundedRun then
    if datagram ∧ c.useSrq ∧ c.iters ≤ MIN_SRQ_UD_RX_DEPTH then MIN_SRQ_UD_RX_DEPTH
    else if datagram ∧ min c.rxDepth c.iters = DEF_RX_SEND then min c.iters UC_MAX_RX
    else min c.rxDepth c.iters
  else c.rxDepth

/-- The receive depth that a receiving test ends up with. -/
def receiveDepth : Nat :=
  let depth := if c.connectionType = .dc then max c.boundedReceiveDepth c.numOfQps
    else c.boundedReceiveDepth
  if c.testMethod = .runRegular ∧ depth % 2 = 1 then depth + 1 else depth

variable {c}

theorem clampedRxDepth_of_recv (hv : hasRecvComp c.verb = true) :
    c.clampedRxDepth = c.boundedReceiveDepth := by
  have hw : c.verb ≠ .write := by
    intro hw
    rw [hw] at hv
    cases hv
  have hmin : (if c.iters < c.rxDepth then c.iters else c.rxDepth) = min c.rxDepth c.iters := by
    split <;> omega
  have hmax : (if c.iters < UC_MAX_RX then c.iters else UC_MAX_RX) = min c.iters UC_MAX_RX := by
    split <;> omega
  unfold clampedRxDepth boundedReceiveDepth
  simp only [hw, if_false, hv, Bool.true_and, decide_eq_true_eq, hmin, hmax, Bool.or_eq_true,
    Bool.and_eq_true]
  by_cases hb : c.boundedRun
  · by_cases hd : c.connectionType = .ud ∨ c.connectionType = .uc
    · by_cases hs : c.useSrq = true ∧ c.iters ≤ MIN_SRQ_UD_RX_DEPTH
      · have hne : MIN_SRQ_UD_RX_DEPTH ≠ DEF_RX_SEND := by decide
        simp [hb, hd, hs, hne]
      · simp [hb, hd, hs]
    · simp [hb, hd]
  · simp [hb]

theorem coreDependecies_rxDepth (hv : hasRecvComp c.verb = true) :
    c.coreDependecies.rxDepth = c.receiveDepth := by
  have hmax : ∀ a b : Nat, (if a < b then b else a) = max a b := by
    intro a b
    split <;> omega
  unfold receiveDepth
  rw [← clampedRxDepth_of_recv hv]
  simp only [coreDependecies, setFillCount, evenRxDepth, forceSrd, forceInfinitely, forceMcg,
    forceMacFwd, forceDuration, forcePostList, forceDualport, forceTransport, deriveGeometry,
    forceSize, clampCqMod, limitCqMod, forceDepths, hv, true_and]
  by_cases hd : c.connectionType = .dc
  · simp only [hd, true_and, if_true, hmax]
    by_cases hr : c.testMethod = .runRegular <;> simp [hr]
  · simp only [hd, false_and, if_false]
    by_cases hr : c.testMethod = .runRegular <;> simp [hr]

end CoreParameters

end Perftest
