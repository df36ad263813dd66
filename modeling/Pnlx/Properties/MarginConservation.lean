import Pnlx.BatchMatch.Cancelling
import Pnlx.Properties.MatchLaws

/-!
# Margin conservation

The margins of the orders that are filled become the margins of positions and residuals, and the fees
of the batch. `matchBatch_conserves_iff`: where no product overflows, this fails exactly when a sum of
`ceil_div` wraps at a later fill or at the last one of an order, or when a total of the fees wraps.
-/

namespace Pnlx.BatchMatch

variable {H : Host} {k : Checks} {market : MarketInput} {orders filled : List BookOrder} {book : Book}
  {trades : List Trade} {intents : List RecoveredIntent} {output : MatchOutput}

/-- An execution spends the note of the order. -/
def HasFill (output : MatchOutput) (order : BookOrder) : Prop :=
  ∃ execution ∈ output.executions, execution.longNoteNullifier = order.intent.noteNullifier ∨
    execution.shortNoteNullifier = order.intent.noteNullifier

instance : DecidablePred (HasFill output) := fun order => by unfold HasFill; infer_instance

/-- The margins of the orders that have a fill are the margins of the positions and the residuals,
and the fees that nobody gets back. -/
structure Conserved (orders : List BookOrder) (output : MatchOutput) : Prop where
  margins : sumOf (·.margin) output.fills + sumOf (·.margin) output.residuals +
      output.fees.insurance.toNat + output.fees.treasury.toNat =
    sumOf (·.margin) (orders.filter (HasFill output))
  fees : ∀ execution ∈ output.executions, execution.grossTakerFee.toNat =
    execution.makerRebate.toNat + execution.insurance.toNat + execution.treasury.toNat

instance : Decidable (Conserved orders output) :=
  decidable_of_iff (_ ∧ _) ⟨fun h => ⟨h.1, h.2⟩, fun h => ⟨h.margins, h.fees⟩⟩

/-- A residual has the margin that its order has not allocated. -/
theorem createResidual_margin {order : BookOrder} (horder : Multiplied order) {residual : Residual}
    (h : createResidual H k market order = some residual) :
    residual.margin.toNat + order.allocatedMargin.toNat = order.margin.toNat := by
  unfold createResidual at h
  simp only [Option.bind_eq_bind, Option.bind_eq_some_iff, Option.some.injEq] at h
  obtain ⟨margin, hmargin, _, -, _, -, rfl⟩ := h
  obtain ⟨-, rfl⟩ := guarded_eq_some.mp hmargin
  have hle := horder.le_margin
  show (order.margin - order.allocatedMargin).toNat + _ = _
  rw [toNat_sub_of_le hle]
  omega

/-- An order that is ended has allocated its margin or lost it. -/
theorem Multiplied.allocated_add_lost {order : BookOrder} (h : Multiplied order)
    (hended : order.remaining.toNat = 0) :
    order.allocatedMargin.toNat + lostBy order = order.margin.toNat := by
  have hall : order.filled.toNat = order.size.toNat := by
    have hleft := h.left
    omega
  rw [h.allocatedMargin, lostBy]
  by_cases hwraps : Wraps order order.filled.toNat
  · rw [if_pos hwraps, if_pos ⟨hended, hwraps⟩, Nat.zero_add]
  · rw [if_neg hwraps, if_neg fun hlost => hwraps hlost.2, hall, share_all h.pos, Nat.add_zero]

/-- An order without a fill has allocated and lost nothing. -/
theorem Multiplied.unfilled {order : BookOrder} (h : Multiplied order)
    (hzero : order.filled.toNat = 0) : order.allocatedMargin.toNat = 0 ∧ lostBy order = 0 := by
  have hwraps : ¬ Wraps order order.filled.toNat := hzero ▸ not_wraps_zero order
  have hpos := h.pos
  refine ⟨?_, if_neg fun hlost => hwraps hlost.2⟩
  rw [h.allocatedMargin, if_neg hwraps, hzero]
  exact Nat.div_eq_of_lt (by omega)

/-- What the orders have allocated, what their residuals get and what they have lost. -/
theorem residuals_balance {residuals : List Residual}
    (h : createResiduals H k market filled = some residuals)
    (hfilled : ∀ order ∈ filled, Multiplied order) :
    sumOf (·.allocatedMargin) filled + sumOf (·.margin) residuals + (filled.map lostBy).sum =
      sumOf (·.margin) (filled.filter (·.filled > 0)) := by
  have hpos (x : U128) : x > 0 ↔ 0 < x.toNat := BitVec.lt_def
  induction filled generalizing residuals with
  | nil =>
    obtain rfl := Option.some.inj h
    rfl
  | cons order filled ih =>
    have hrest {residuals : List Residual} (h : createResiduals H k market filled = some residuals) :=
      ih h fun o ho => hfilled o (List.mem_cons_of_mem _ ho)
    have horder := hfilled order List.mem_cons_self
    rw [sumOf_cons, List.map_cons, List.sum_cons]
    unfold createResiduals at h
    by_cases hpartial : order.filled > 0 ∧ order.remaining > 0
    · rw [List.filter_cons, if_pos (decide_eq_true hpartial), List.mapM_cons] at h
      obtain ⟨residual, hresidual, h⟩ := Option.bind_eq_some_iff.mp h
      obtain ⟨rest, hmapM, h⟩ := Option.bind_eq_some_iff.mp h
      obtain rfl := Option.some.inj h
      have hmargin := createResidual_margin horder hresidual
      have hlost : lostBy order = 0 := lostBy_of_remaining fun hzero =>
        absurd hpartial.2 (by rw [hzero]; decide)
      have hrest := hrest hmapM
      rw [List.filter_cons, if_pos (decide_eq_true hpartial.1), sumOf_cons, sumOf_cons]
      omega
    · rw [List.filter_cons, if_neg (fun h => hpartial (of_decide_eq_true h))] at h
      have hrest := hrest h
      by_cases hsome : order.filled > 0
      · have hended : order.remaining.toNat = 0 := by
          have hnot : ¬ order.remaining > 0 := fun h => hpartial ⟨hsome, h⟩
          rw [hpos] at hnot
          omega
        have hall := horder.allocated_add_lost hended
        rw [List.filter_cons, if_pos (decide_eq_true hsome), sumOf_cons]
        omega
      · have hzero : order.filled.toNat = 0 := by
          rw [hpos] at hsome
          omega
        obtain ⟨hallocated, hlost⟩ := horder.unfilled hzero
        rw [List.filter_cons, if_neg (fun h => hsome (of_decide_eq_true h))]
        omega

/-- The totals of the fees wrap. -/
theorem totalFees_wrapped {executions : List Execution} {fees fees' : FillFees}
    (h : executions.foldlM (addFees k) fees = some fees') :
    fees'.insurance.toNat = (fees.insurance.toNat + sumOf (·.insurance) executions) % 2 ^ 128 ∧
      fees'.treasury.toNat = (fees.treasury.toNat + sumOf (·.treasury) executions) % 2 ^ 128 := by
  induction executions generalizing fees with
  | nil =>
    obtain rfl := Option.some.inj h
    exact ⟨(Nat.mod_eq_of_lt fees.insurance.isLt).symm, (Nat.mod_eq_of_lt fees.treasury.isLt).symm⟩
  | cons execution executions ih =>
    rw [List.foldlM_cons] at h
    obtain ⟨next, hnext, h⟩ := Option.bind_eq_some_iff.mp h
    obtain ⟨hinsurance, htreasury⟩ := ih h
    unfold addFees at hnext
    simp only [Option.bind_eq_bind, Option.bind_eq_some_iff, Option.some.injEq] at hnext
    obtain ⟨gross, -, rebate, -, insurance, hi, treasury, ht, rfl⟩ := hnext
    obtain ⟨-, rfl⟩ := guarded_eq_some.mp hi
    obtain ⟨-, rfl⟩ := guarded_eq_some.mp ht
    rw [sumOf_cons, sumOf_cons]
    simp only [BitVec.toNat_add] at hinsurance htreasury
    omega

theorem sumOf_fills (trades : List Trade) :
    sumOf (·.margin) (trades.flatMap fun trade => [trade.longFill, trade.shortFill]) =
      (trades.map fun trade => trade.longFill.margin.toNat + trade.shortFill.margin.toNat).sum := by
  induction trades with
  | nil => rfl
  | cons trade trades ih =>
    rw [List.flatMap_cons, List.map_cons, List.sum_cons, ← ih]
    simp only [sumOf, List.map_append, List.sum_append, List.map_cons, List.map_nil, List.sum_cons,
      List.sum_nil]
    omega

theorem hasFill_iff (h : output.executions = trades.map (·.execution)) (order : BookOrder) :
    HasFill output order ↔ fillsOf order.intent.noteNullifier trades ≠ [] := by
  unfold HasFill fillsOf
  rw [h, ne_eq, List.flatMap_eq_nil_iff]
  simp only [List.mem_map, exists_exists_and_eq_and, List.append_eq_nil_iff, ite_eq_right_iff,
    List.cons_ne_nil, imp_false, not_forall, not_and_or, not_not, exists_prop]

/-- The margins of the orders with a fill, in terms of the orders after the loop. -/
theorem Matched.margins_filled (hmatched : Matched H k market intents orders book filled output)
    (htrading : Trading H k market orders book trades) :
    sumOf (·.margin) (orders.filter (HasFill output)) =
      sumOf (·.margin) (filled.filter (·.filled > 0)) := by
  have hback := hmatched.back
  rw [filter_filled htrading.sizes_ne fun order hf => htrading.tracked order (hback.perm.mem_iff.mp hf),
    ← hback.fresh, List.filter_map, sumOf, List.map_map]
  unfold sumOf
  refine congrArg List.sum (congrArg (List.map _) (List.filter_congr fun order _ => ?_))
  exact decide_eq_decide.mpr
    (hasFill_iff (hmatched.output.executions.trans htrading.executions) order)

/-- By how much the margins of a match are off. -/
theorem Matched.margins_add {crossed : List (BookOrder × BookOrder)}
    (hmatched : Matched H k market intents orders book filled output)
    (htrading : Trading H k market orders book trades) (htallied : Tallied book trades crossed) :
    sumOf (·.margin) output.fills + sumOf (·.margin) output.residuals +
        output.fees.insurance.toNat + output.fees.treasury.toNat + (crossed.map lostOf).sum +
        2 ^ 128 * ((crossed.map insuranceOf).sum / 2 ^ 128 + (crossed.map treasuryOf).sum / 2 ^ 128) =
      sumOf (·.margin) (orders.filter (HasFill output)) + 2 ^ 128 * (crossed.map dropsOf).sum := by
  have hout := hmatched.output
  have hback := hmatched.back
  have hresiduals := residuals_balance hout.residuals fun order hf =>
    htallied.orders order (hback.perm.mem_iff.mp hf)
  obtain ⟨hinsurance, htreasury⟩ := totalFees_wrapped hout.fees
  have hallocated := (hback.perm.map (·.allocatedMargin.toNat)).sum_eq
  have hlost := (hback.perm.map lostBy).sum_eq
  have hmargins := htallied.margins
  have hlosses := htallied.lost
  have hzero : (0 : U128).toNat = 0 := rfl
  have hinsurances : sumOf (·.insurance) book.executions = (crossed.map insuranceOf).sum := by
    rw [htrading.executions, sumOf, List.map_map]
    exact htallied.insurance
  have htreasuries : sumOf (·.treasury) book.executions = (crossed.map treasuryOf).sum := by
    rw [htrading.executions, sumOf, List.map_map]
    exact htallied.treasury
  rw [List.map_append, List.sum_append] at hallocated hlost
  have hcosts : (trades.map fun trade =>
      trade.execution.insurance.toNat + trade.execution.treasury.toNat).sum =
      (crossed.map insuranceOf).sum + (crossed.map treasuryOf).sum := by
    rw [List.sum_map_add, htallied.insurance, htallied.treasury]
  rw [hmatched.margins_filled htrading, hout.fills, htrading.fills, sumOf_fills]
  simp only [hinsurances, htreasuries, hzero, Nat.zero_add] at hinsurance htreasury
  simp only [sumOf] at hresiduals ⊢
  omega

/-! ## When the margins are conserved -/

/-- No fill drops, no order loses its margin, and the totals of the fees fit. -/
structure MarginsKept (H : Host) (market : MarketInput) (orders : List BookOrder) : Prop where
  drops : ∀ pair ∈ crossings H market orders, dropsOf pair = 0
  lost : ∀ pair ∈ crossings H market orders, lostOf pair = 0
  insurance : ((crossings H market orders).map insuranceOf).sum < 2 ^ 128
  treasury : ((crossings H market orders).map treasuryOf).sum < 2 ^ 128

/-- What the fills that drop get too much is what orders lose and what the totals of the fees do not
hold. -/
structure Cancels (H : Host) (market : MarketInput) (orders : List BookOrder) : Prop where
  pos : 0 < ((crossings H market orders).map dropsOf).sum
  equal : 2 ^ 128 * ((crossings H market orders).map dropsOf).sum =
    ((crossings H market orders).map lostOf).sum +
      2 ^ 128 * (((crossings H market orders).map insuranceOf).sum / 2 ^ 128 +
        ((crossings H market orders).map treasuryOf).sum / 2 ^ 128)
instance (orders : List BookOrder) : Decidable (MarginsKept H market orders) :=
  decidable_of_iff (_ ∧ _ ∧ _ ∧ _)
    ⟨fun h => ⟨h.1, h.2.1, h.2.2.1, h.2.2.2⟩, fun h => ⟨h.drops, h.lost, h.insurance, h.treasury⟩⟩

/-- No more orders are crossed than there are. -/
theorem length_crossings_le : (crossings H market orders).length ≤ orders.length := by
  refine length_worked_le.trans_eq ?_
  show (sortedBook orders).longs.after.length + (sortedBook orders).shorts.after.length = _
  rw [← List.length_append]
  exact sortedBook_perm.length_eq

/-- A match whose products do not overflow conserves the margins exactly when they are kept, or when
the errors of its sums cancel. -/
theorem Matched.conserved_iff
    (hmatched : Matched H k market intents orders book filled output)
    (htrading : Trading H k market orders book trades)
    (htallied : Tallied book trades (crossings H market orders)) :
    Conserved orders output ↔ MarginsKept H market orders ∨ Cancels H market orders := by
  have hmargins := hmatched.margins_add htrading htallied
  have hsum {f : BookOrder × BookOrder → ℕ} : (∀ pair ∈ crossings H market orders, f pair = 0) ↔
      ((crossings H market orders).map f).sum = 0 := by
    rw [List.sum_eq_zero_iff_forall_eq_nat, List.forall_mem_map]
  constructor
  · intro h
    have hconserved := h.margins
    rcases Nat.eq_zero_or_pos ((crossings H market orders).map dropsOf).sum with hdrops | hdrops
    · exact Or.inl ⟨hsum.mpr hdrops, hsum.mpr (by omega), by omega, by omega⟩
    · exact Or.inr ⟨hdrops, by omega⟩
  · intro h
    refine ⟨?_, fun execution hmem => ?_⟩
    · rcases h with hkept | hcancels
      · have hdrops := hsum.mp hkept.drops
        have hlost := hsum.mp hkept.lost
        have hinsurance := hkept.insurance
        have htreasury := hkept.treasury
        omega
      · have hequal := hcancels.equal
        omega
    · rw [hmatched.output.executions, htrading.executions] at hmem
      obtain ⟨trade, htrade, rfl⟩ := List.mem_map.mp hmem
      exact htallied.fees trade htrade

/-- Where no product overflows, a match conserves the margins exactly when they are kept, or when the
errors of its sums cancel, for which there must be `10 ^ 11` orders. -/
theorem matchBatch_conserves_iff (h : matchBatch H .release market intents = some output)
    (hproducts : (matchBatch H ⟨true, false, false⟩ market intents).isSome) :
    ∃ orders, toBookOrders intents = some orders ∧
      (Conserved orders output ↔ MarginsKept H market orders ∨ Cancels H market orders) ∧
      (Cancels H market orders → 10 ^ 11 ≤ orders.length) := by
  obtain ⟨output', h'⟩ := Option.isSome_iff_exists.mp hproducts
  obtain rfl : output = output' := Option.some.inj (h.symm.trans (matchBatch_agrees _ _ _ h'))
  obtain ⟨orders, book, filled, hmatched⟩ := matchBatch_eq_some.mp h'
  obtain ⟨trades, htrading, htallied, hleveraged⟩ :=
    matchLoop_leveraged rfl hmatched.admitted hmatched.loop
  refine ⟨orders, hmatched.request, hmatched.conserved_iff htrading htallied, fun hcancels => ?_⟩
  exact (hleveraged.length_of_cancels htallied hcancels.pos hcancels.equal).trans length_crossings_le

/-- Three long orders whose total size wraps, and a short order. -/
def largeIntents : List RecoveredIntent :=
  [sampleIntent "1" "170141183460469231731687303715884105727" "1" "100",
    sampleIntent "2" "170141183460469231731687303715884105727" "1" "100",
    sampleIntent "3" "170141183460469231731687303715884105727" "1" "100",
    sampleIntent "4" "-100000000" "1" "100"]

/-- No sum of margins wraps, though the total size of the long orders does. -/
theorem matchBatch_conserves_largeIntents : ∃ orders output,
    toBookOrders largeIntents = some orders ∧
      matchBatch sampleHost .release sampleMarket largeIntents = some output ∧
      matchBatch sampleHost ⟨true, true, false⟩ sampleMarket largeIntents = none ∧
      Conserved orders output := by
  have hrun : ∃ orders ∈ toBookOrders largeIntents, MarginsKept sampleHost sampleMarket orders := by
    decide +kernel
  have hproducts : (matchBatch sampleHost ⟨true, false, false⟩ sampleMarket largeIntents).isSome := by
    decide +kernel
  have hwraps : matchBatch sampleHost ⟨true, true, false⟩ sampleMarket largeIntents = none := by
    decide +kernel
  obtain ⟨output, houtput⟩ := Option.isSome_iff_exists.mp hproducts
  have hrelease := matchBatch_agrees _ _ output houtput
  obtain ⟨orders, horders, hiff, -⟩ := matchBatch_conserves_iff hrelease hproducts
  obtain ⟨orders', horders', hkept⟩ := hrun
  obtain rfl : orders = orders' := Option.some.inj (horders.symm.trans horders')
  exact ⟨orders, output, horders, hrelease, hwraps, hiff.mpr (Or.inl hkept)⟩

/-! ## A sum that overflows -/

def roundingMarket : MarketInput :=
  { sampleMarket with initialMarginRate := "100".toList, maxLeverage := "10000".toList }

/-- The margin of the first order times its size is just below `2 ^ 128`. -/
def roundingIntents : List RecoveredIntent :=
  [sampleIntent "1" "1000000" "1000000" "340282366920938463463374607431768",
    sampleIntent "2" "-1000000" "1000000" "100"]

/-- No product overflows, but the sum in `ceil_div` does: the position of the first order has a
margin of one. -/
theorem exists_margins_lost : ∃ orders output,
    toBookOrders roundingIntents = some orders ∧
      matchBatch sampleHost .release roundingMarket roundingIntents = some output ∧
      matchBatch sampleHost ⟨true, false, false⟩ roundingMarket roundingIntents = some output ∧
      output.fills.map (·.margin) = [1, 95] ∧ ¬ Conserved orders output := by
  have hrun : ∃ orders ∈ toBookOrders roundingIntents,
      ∃ output ∈ matchBatch sampleHost ⟨true, false, false⟩ roundingMarket roundingIntents,
        output.fills.map (·.margin) = [1, 95] ∧ ¬ Conserved orders output := by
    decide +kernel
  obtain ⟨orders, horders, output, houtput, hmargins, hlost⟩ := hrun
  exact ⟨orders, output, horders, matchBatch_agrees _ _ _ houtput, houtput, hmargins, hlost⟩

end Pnlx.BatchMatch
