import Pnlx.BatchMatch.Matching

/-!
# Checked builds

A build with more checks aborts more often, and where it returns, the release build returns the
same: `createFill_agrees`, `matchPair_agrees` and `matchBatch_agrees`.
-/

namespace Pnlx.BatchMatch

variable {H : Host} {k : Checks}

/-! ## A fill -/

theorem notional_agrees (size price : U128) :
    Agrees (notional k size price) (notional .release size price) :=
  mul_agrees.bind fun _ => Agrees.refl _

theorem fillFees_agrees (size price : U128) :
    Agrees (fillFees k size price) (fillFees .release size price) := by
  unfold fillFees
  refine (notional_agrees size price).bind fun value => ?_
  refine mul_agrees.bind fun takerFee => ?_
  refine mul_agrees.bind fun rebate => ?_
  refine mul_agrees.bind fun insuranceFee => ?_
  exact sub_agrees.bind fun afterRebate => sub_agrees.bind fun treasury => Agrees.refl _

theorem hasInitialMargin_agrees (size price margin rate : U128) :
    Agrees (hasInitialMargin k size price margin rate)
      (hasInitialMargin .release size price margin rate) :=
  (notional_agrees size price).bind fun _ => mul_agrees.bind fun _ => Agrees.refl _

theorem hasMaxLeverage_agrees (size price margin maxLeverage : U128) :
    Agrees (hasMaxLeverage k size price margin maxLeverage)
      (hasMaxLeverage .release size price margin maxLeverage) := by
  unfold hasMaxLeverage
  refine Agrees.ite ?_ (Agrees.refl _)
  exact (notional_agrees size price).bind fun _ => mul_agrees.bind fun _ => Agrees.refl _

theorem ceilDiv_agrees (value divisor : U128) :
    Agrees (ceilDiv k value divisor) (ceilDiv .release value divisor) :=
  add_agrees.bind fun _ => sub_agrees.bind fun _ => Agrees.refl _

theorem allocateMargin_agrees (order : BookOrder) (fillSize : U128) :
    Agrees (allocateMargin k order fillSize) (allocateMargin .release order fillSize) := by
  unfold allocateMargin
  refine add_agrees.bind fun nextFilled => ?_
  refine mul_agrees.bind fun value => ?_
  refine (ceilDiv_agrees value order.size).bind fun nextAllocated => ?_
  exact sub_agrees.bind fun fillMargin => Agrees.refl _

theorem marginAfterFee_agrees (margin : U128) (feeDelta : I128) :
    Agrees (marginAfterFee k margin feeDelta) (marginAfterFee .release margin feeDelta) := by
  unfold marginAfterFee
  exact Agrees.ite (Agrees.refl _) (asU128_agrees.bind fun _ => Agrees.refl _)

theorem assertFill_agrees (market : MarketInput) (size price margin : U128) :
    Agrees (assertFill k market size price margin) (assertFill .release market size price margin) := by
  refine (Agrees.refl _).bind fun rate => ?_
  refine (hasInitialMargin_agrees size price margin rate).bind fun enough => ?_
  refine (Agrees.refl _).bind fun _ => (Agrees.refl _).bind fun maxLeverage => ?_
  exact (hasMaxLeverage_agrees size price margin maxLeverage).bind fun _ => Agrees.refl _

theorem createFill_agrees (market : MarketInput) (order : BookOrder) (size price : U128)
    (fillIndex : ℕ) (feeDelta : I128) :
    Agrees (createFill H k market order size price fillIndex feeDelta)
      (createFill H .release market order size price fillIndex feeDelta) := by
  unfold createFill
  refine (allocateMargin_agrees order size).bind fun allocated => ?_
  refine (marginAfterFee_agrees allocated.1 feeDelta).bind fun margin => ?_
  exact (assertFill_agrees market size price margin).bind fun _ => Agrees.refl _

/-! ## The loop -/

theorem feeDeltas_agrees (fees : FillFees) (longMaker : Prop) [Decidable longMaker] :
    Agrees (feeDeltas k fees longMaker) (feeDeltas .release fees longMaker) :=
  asI128_agrees.bind fun _ => asI128_agrees.bind fun _ => negSigned_agrees.bind fun _ =>
    Agrees.refl _

theorem reduce_agrees (order : BookOrder) (size : U128) :
    Agrees (reduce k order size) (reduce .release order size) :=
  sub_agrees.bind fun _ => Agrees.refl _

theorem matchPair_agrees (market : MarketInput) (book : Book) (long short : BookOrder) :
    Agrees (matchPair H k market book long short) (matchPair H .release market book long short) := by
  unfold matchPair
  refine (fillFees_agrees _ _).bind fun fees => ?_
  refine (feeDeltas_agrees fees _).bind fun deltas => ?_
  refine (createFill_agrees market long _ _ _ _).bind fun longFill => ?_
  refine (createFill_agrees market short _ _ _ _).bind fun shortFill => ?_
  exact (reduce_agrees _ _).bind fun _ => (reduce_agrees _ _).bind fun _ => Agrees.refl _

theorem matchLoop_agrees (market : MarketInput) (book : Book) :
    Agrees (matchLoop H k market book) (matchLoop H .release market book) :=
  loop_agrees fun book pair => matchPair_agrees market book pair.1 pair.2

theorem matchOrders_agrees (market : MarketInput) (intents : List RecoveredIntent) :
    Agrees (matchOrders H k market intents) (matchOrders H .release market intents) := by
  refine (Agrees.refl _).bind fun orders => ?_
  refine (Agrees.refl _).bind fun _ => ?_
  exact (matchLoop_agrees market _).bind fun book => Agrees.refl _

/-! ## The output -/

theorem signedFor_agrees (side : Side) (size : U128) :
    Agrees (signedFor k side size) (signedFor .release side size) :=
  asI128_agrees.bind fun _ => Agrees.ite (Agrees.refl _) negSigned_agrees

theorem createResidual_agrees (market : MarketInput) (order : BookOrder) :
    Agrees (createResidual H k market order) (createResidual H .release market order) := by
  unfold createResidual
  refine sub_agrees.bind fun margin => (Agrees.refl _).bind fun _ => ?_
  exact (signedFor_agrees _ _).bind fun signedSize => Agrees.refl _

theorem totalFees_agrees (executions : List Execution) :
    Agrees (totalFees k executions) (totalFees .release executions) := by
  refine Agrees.foldlM (fun fees execution => ?_) executions _
  exact add_agrees.bind fun _ => add_agrees.bind fun _ => add_agrees.bind fun _ =>
    add_agrees.bind fun _ => Agrees.refl _

theorem residualSize_agrees (totalLongSize totalShortSize : U128) (fills : List Fill) :
    Agrees (residualSize k totalLongSize totalShortSize fills)
      (residualSize .release totalLongSize totalShortSize fills) := by
  have hfill (total : I128) (fill : Fill) :
      Agrees (addSignedFill k total fill) (addSignedFill .release total fill) :=
    (signedFor_agrees _ _).bind fun _ => addSigned_agrees
  unfold residualSize
  refine asI128_agrees.bind fun long => asI128_agrees.bind fun short => ?_
  refine subSigned_agrees.bind fun inputSigned => ?_
  exact (Agrees.foldlM hfill fills 0).bind fun _ => subSigned_agrees.bind fun _ => Agrees.refl _

theorem createOutput_agrees (market : MarketInput) (book : Book) (orders : List BookOrder) :
    Agrees (createOutput H k market book orders) (createOutput H .release market book orders) := by
  refine (sum_agrees _).bind fun volume => ?_
  refine (sum_agrees _).bind fun long => (sum_agrees _).bind fun short => ?_
  refine (residualSize_agrees long short _).bind fun residual => ?_
  refine (Agrees.mapM (createResidual_agrees market) _).bind fun residuals => ?_
  exact (totalFees_agrees _).bind fun fees => Agrees.refl _

/-- Where a checked build returns, the release build returns the same. -/
theorem matchBatch_agrees (market : MarketInput) (intents : List RecoveredIntent) :
    Agrees (matchBatch H k market intents) (matchBatch H .release market intents) :=
  (matchOrders_agrees market intents).bind fun _ => createOutput_agrees market _ _

end Pnlx.BatchMatch
