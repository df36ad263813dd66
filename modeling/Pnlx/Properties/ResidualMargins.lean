import Pnlx.BatchMatch.Wrapping
import Pnlx.Properties.MatchLaws
import Pnlx.Server.Rounds

/-!
# Residuals without a margin

What an order has allocated is rounded up, so an order that is filled in part can have allocated its
whole margin. Its residual then aborts the match of every other order.

1. `share_lt_iff`: when rounding up leaves something of a margin.
2. `BatchMatch.matchBatch_isSome_iff`, `Server.matchBatch_isSome_iff`: when a match is not aborted
   after its loop.
3. `exists_residual_aborts`: an order of margin one and size two.
-/

namespace Pnlx

/-! ## Rounding -/

/-- Something of the margin is left when the margin of what remains is at least one. -/
theorem share_lt_iff {margin filled remaining size : ℕ} (hsize : 0 < size)
    (hleft : filled + remaining = size) :
    (margin * filled + size - 1) / size < margin ↔ size ≤ margin * remaining := by
  have hmul : margin * size = margin * filled + margin * remaining := by
    rw [← hleft, Nat.mul_add]
  rw [Nat.div_lt_iff_lt_mul hsize, hmul]
  omega

/-- On words the rounded share is the whole margin exactly when no sum wraps and nothing is left. -/
theorem wrapped_share_iff {margin filled remaining size : ℕ} (hsize : 0 < size)
    (hlt : size < 2 ^ 128) (hleft : filled + remaining = size) :
    (margin * filled + size - 1) % 2 ^ 128 / size ≠ margin ↔
      (margin * filled + size ≤ 2 ^ 128 → size ≤ margin * remaining) := by
  have hmul : margin * size = margin * filled + margin * remaining := by
    rw [← hleft, Nat.mul_add]
  have hle : (margin * filled + size - 1) / size ≤ margin := by
    refine Nat.le_of_lt_succ ((Nat.div_lt_iff_lt_mul hsize).mpr ?_)
    rw [Nat.succ_mul, hmul]
    omega
  by_cases hfits : margin * filled + size ≤ 2 ^ 128
  · rw [Nat.mod_eq_of_lt (by omega)]
    have hshare := @share_lt_iff margin filled remaining size hsize hleft
    constructor
    · exact fun hne _ => hshare.mp (by omega)
    · intro hcond
      have := hshare.mpr (hcond hfits)
      omega
  · -- a wrapped numerator is too small for the whole margin
    refine iff_of_true (fun heq => ?_) fun h => absurd h hfits
    have hnumerator := Nat.div_mul_le_self ((margin * filled + size - 1) % 2 ^ 128) size
    rw [heq] at hnumerator
    omega

end Pnlx

namespace Pnlx.BatchMatch

variable {H : Host} {market : MarketInput} {orders filled : List BookOrder} {book : Book}
  {trades : List Trade} {intents : List RecoveredIntent}

/-! ## The guest program -/

/-- The margin of what remains is at least one, where the release build does not wrap. -/
def MarginLasts (order : BookOrder) : Prop :=
  order.margin.toNat * order.filled.toNat + order.size.toNat ≤ 2 ^ 128 →
    order.size.toNat ≤ order.margin.toNat * order.remaining.toNat

instance : DecidablePred MarginLasts := fun order => by unfold MarginLasts; infer_instance

theorem matchLoop_allocatedWrapping (ho : Admitted orders)
    (h : matchLoop H .release market (sortedBook orders) = some book) :
    ∀ order ∈ book.longs.all ++ book.shorts.all, AllocatedWrapping order := by
  refine loop_inv (I := fun book => ∀ order ∈ book.longs.all ++ book.shorts.all,
    AllocatedWrapping order) ?_ ?_ h
  · rintro book ⟨long, short⟩ book' hbook hcrossed hround order hmem
    obtain ⟨trade, fees, deltas, -, rfl⟩ := matchPair_eq_some.mp hround
    rcases List.mem_append.mp hmem with hmem | hmem
    · rcases Cursor.mem_all_put.mp hmem with rfl | hother
      · exact rfl
      · exact hbook order (List.mem_append_left _ (Cursor.mem_all_of_others hother))
    · rcases Cursor.mem_all_put.mp hmem with rfl | hother
      · exact rfl
      · exact hbook order (List.mem_append_right _ (Cursor.mem_all_of_others hother))
  · intro order hmem
    have hmem := sortedBook_perm.mem_iff.mp hmem
    exact AllocatedWrapping.of_fresh (ho.fresh order hmem) fun hzero =>
      ho.size_ne order hmem (BitVec.eq_of_toNat_eq hzero)

theorem createResidual_isSome {order : BookOrder} :
    (createResidual H .release market order).isSome ↔ order.allocatedMargin ≠ order.margin := by
  have hsigned : ∃ z, signedFor .release order.side order.remaining = some z := by
    cases hside : order.side <;> exact ⟨_, rfl⟩
  obtain ⟨z, hz⟩ := hsigned
  have hpos : order.margin - order.allocatedMargin > 0 ↔ order.allocatedMargin ≠ order.margin := by
    have hlt := order.margin.isLt
    have hlt' := order.allocatedMargin.isLt
    rw [gt_iff_lt, BitVec.lt_def, ne_eq, BitVec.toNat_eq, BitVec.toNat_sub]
    show 0 < _ ↔ _
    omega
  unfold createResidual
  rw [show sub .release order.margin order.allocatedMargin =
    some (order.margin - order.allocatedMargin) from guarded_false, hz]
  rw [Option.isSome_iff_exists]
  simp only [Option.bind_eq_bind, Option.bind_some, Option.bind_eq_some_iff, assert_eq_some, hpos]
  constructor
  · rintro ⟨_, _, h, -⟩
    exact h
  · exact fun h => ⟨_, (), h, rfl⟩

/-- After the loop the release build aborts at a residual only. -/
theorem createOutput_isSome : (createOutput H .release market book filled).isSome ↔
    (createResiduals H .release market filled).isSome := by
  have hsum (total : U128) (l : List U128) : ∃ s, sumFrom .release total l = some s := by
    induction l generalizing total with
    | nil => exact ⟨total, rfl⟩
    | cons x l ih => exact ih (total + x)
  have hfees (executions : List Execution) (fees : FillFees) :
      ∃ total, executions.foldlM (addFees .release) fees = some total := by
    induction executions generalizing fees with
    | nil => exact ⟨fees, rfl⟩
    | cons execution executions ih =>
      rw [List.foldlM_cons]
      exact ih ⟨_, _, _, _⟩
  have hsigned (fills : List Fill) (total : I128) :
      ∃ z, fills.foldlM (addSignedFill .release) total = some z := by
    induction fills generalizing total with
    | nil => exact ⟨total, rfl⟩
    | cons fill fills ih =>
      rw [List.foldlM_cons]
      have hstep : ∃ z, addSignedFill .release total fill = some z := by
        unfold addSignedFill signedFor
        cases fill.side <;> exact ⟨_, rfl⟩
      obtain ⟨z, hz⟩ := hstep
      rw [hz]
      exact ih z
  obtain ⟨volume, hvolume⟩ := hsum 0 (book.fills.map (·.size))
  obtain ⟨long, hlong⟩ := hsum 0 ((filled.filter (·.side = .long)).map (·.size))
  obtain ⟨short, hshort⟩ := hsum 0 ((filled.filter (·.side = .short)).map (·.size))
  obtain ⟨signed, hsigned⟩ := hsigned book.fills 0
  obtain ⟨fees, hfees⟩ := hfees book.executions ⟨0, 0, 0, 0⟩
  have hresidual : residualSize .release long short book.fills =
      some (long - short - signed).abs := by
    unfold residualSize asI128 subSigned
    rw [hsigned]
    rfl
  unfold createOutput sum sideSize totalFees
  rw [hvolume, show sum .release _ = some long from hlong,
    show sum .release _ = some short from hshort, hfees]
  simp only [Option.bind_eq_bind, Option.bind_some, hresidual]
  cases createResiduals H .release market filled with
  | none => exact Iff.rfl
  | some residuals => exact Iff.rfl

/-- After its loop a match is aborted exactly when the margin of an order does not last. -/
theorem matchBatch_isSome_iff (h : matchOrders H .release market intents = some (book, filled)) :
    (matchBatch H .release market intents).isSome ↔ ∀ order ∈ filled, 0 < order.filled.toNat →
      0 < order.remaining.toNat → MarginLasts order := by
  have hmatch : matchBatch H .release market intents =
      createOutput H .release market book filled := by
    unfold matchBatch
    rw [h]
    rfl
  unfold matchOrders at h
  simp only [Option.bind_eq_bind, Option.bind_eq_some_iff, assert_eq_some, Option.some.injEq,
    Prod.mk.injEq] at h
  obtain ⟨orders, horders, -, hnodup, book, hloop, -, -, rfl, hfilled⟩ := h
  have hadmitted := toBookOrders_admitted horders hnodup
  obtain ⟨trades, htrading⟩ := matchLoop_trading hadmitted hloop
  have hback := htrading.writtenBack hadmitted
  rw [hfilled] at hback
  have hallocated := matchLoop_allocatedWrapping hadmitted hloop
  have hlasts : ∀ order ∈ filled, (order.allocatedMargin ≠ order.margin ↔ MarginLasts order) := by
    intro order hmem
    have hmem := hback.perm.mem_iff.mp hmem
    have hleft := (htrading.tracked order hmem).left
    have hpos : 0 < order.size.toNat := Nat.pos_of_ne_zero fun hzero =>
      hadmitted.size_ne (fresh order) (htrading.mem_orders hmem) (BitVec.eq_of_toNat_eq hzero)
    rw [ne_eq, BitVec.toNat_eq, toNat_allocatedWrapping (hallocated order hmem) hpos]
    exact wrapped_share_iff hpos order.size.isLt hleft
  have hzero : (0 : U128).toNat = 0 := rfl
  rw [hmatch, createOutput_isSome]
  unfold createResiduals
  rw [mapM_isSome]
  simp only [List.mem_filter, decide_eq_true_eq, createResidual_isSome, gt_iff_lt, BitVec.lt_def,
    hzero, and_imp]
  exact forall₂_congr fun order hmem => forall₂_congr fun _ _ => hlasts order hmem

end Pnlx.BatchMatch

namespace Pnlx.Server

variable {H : Host} {poseidon2Hash : Fr → Fr → Fr} {bound : Option ℤ} {input : MatchInput}
  {book : Book} {orders : List BookOrder}

/-! ## The server -/

theorem createResidual_isSome {order : BookOrder} (h : Kept order) :
    (createResidual H input order).isSome ↔ order.size ≤ order.intent.margin * order.remaining := by
  have hsize := h.size_pos
  have hnonneg : 0 ≤ order.intent.margin * order.filled := Int.mul_nonneg h.margin_pos.le h.filled
  have hmul : order.intent.margin * order.size =
      order.intent.margin * order.filled + order.intent.margin * order.remaining := by
    rw [← h.left, Int.mul_add]
  have hshare : order.allocatedMargin < order.intent.margin ↔
      order.size ≤ order.intent.margin * order.remaining := by
    rw [h.share, ceilDiv, Int.tdiv_eq_ediv_of_nonneg (by omega), Int.ediv_lt_iff_lt_mul hsize, hmul]
    omega
  rw [← hshare, Option.isSome_iff_exists]
  unfold createResidual
  simp only [Option.bind_eq_bind, Option.bind_eq_some_iff, assert_eq_some, Option.some.injEq]
  constructor
  · rintro ⟨_, _, hpos, -⟩
    omega
  · exact fun hlt => ⟨_, (), by omega, rfl⟩

/-- After its loop a match is aborted exactly when the margin of an order does not last. -/
theorem matchBatch_isSome_iff (h : matchOrders H poseidon2Hash bound input = some (book, orders)) :
    (matchBatch H poseidon2Hash bound input).isSome ↔ ∀ order ∈ orders, 0 < order.filled →
      0 < order.remaining → order.size ≤ order.intent.margin * order.remaining := by
  have hkept := matchOrders_kept h
  have hresult : (createResult H input book orders).isSome ↔
      (createResiduals H input orders).isSome := by
    unfold createResult
    cases createResiduals H input orders with
    | none => exact Iff.rfl
    | some residuals => exact Iff.rfl
  unfold matchBatch
  rw [h, Option.bind_eq_bind, Option.bind_some, hresult]
  unfold createResiduals
  rw [mapM_isSome]
  simp only [List.mem_filter, decide_eq_true_eq, gt_iff_lt, and_imp]
  exact forall₂_congr fun order hmem => forall₂_congr fun _ _ =>
    createResidual_isSome (hkept order hmem)

/-! ## Samples -/

/-- An order whose commitment and nullifier are made from `name`. -/
def sampleOrder (name : String) (signedSize limitPrice margin : ℤ) : PrivateMatchIntent where
  batchId := "batch-1".toList
  intentCommitment := "0x".toList ++ name.toList
  limitPrice := limitPrice
  margin := margin
  marketId := "xlm-usd-perp".toList
  noteChangeCommitment := "0x0".toList
  noteNullifier := "0x10".toList ++ name.toList
  ownerCommitment := "0x20".toList ++ name.toList
  signedSize := signedSize
  sourceIntentCommitment := none

def sampleConfig : MarketConfig where
  fundingIndex := 0
  initialMarginRate := 100000
  maintenanceMarginRate := 50000
  marketId := "xlm-usd-perp".toList
  maxLeverage := 10

end Pnlx.Server

namespace Pnlx

open BatchMatch (RecoveredIntent MarketInput sampleIntent)
open Server (MatchInput sampleOrder sampleConfig)

/-- When the fills of a batch have passed their checks, its residuals do not abort it if and only if
the margin of every order that is filled in part lasts for what remains of it. -/
theorem residuals_pass_iff (H : Host) (poseidon2Hash : Fr → Fr → Fr) :
    (∀ (market : MarketInput) (intents : List RecoveredIntent) book orders,
      BatchMatch.matchOrders H .release market intents = some (book, orders) →
      ((BatchMatch.matchBatch H .release market intents).isSome ↔
        ∀ order ∈ orders, 0 < order.filled.toNat → 0 < order.remaining.toNat →
          BatchMatch.MarginLasts order)) ∧
    ∀ (input : MatchInput) book orders,
      Server.matchOrders H poseidon2Hash none input = some (book, orders) →
      ((Server.matchBatch H poseidon2Hash none input).isSome ↔
        ∀ order ∈ orders, 0 < order.filled → 0 < order.remaining →
          order.size ≤ order.intent.margin * order.remaining) :=
  ⟨fun _ _ _ _ h => BatchMatch.matchBatch_isSome_iff h, fun _ _ _ h => Server.matchBatch_isSome_iff h⟩

/-- A long order of size three and margin four, a third of which is filled. -/
theorem residuals_pass_sample :
    (BatchMatch.matchBatch sampleHost .release BatchMatch.sampleMarket
        [sampleIntent "1" "3" "1" "4", sampleIntent "2" "-1" "1" "1"]).isSome ∧
      (Server.matchBatch sampleHost sampleHost.poseidon2Hash none ⟨"batch-1".toList,
        [sampleOrder "1" 3 1 4, sampleOrder "2" (-1) 1 1], sampleConfig⟩).isSome := by
  have hguest : ∃ p ∈ BatchMatch.matchOrders sampleHost .release BatchMatch.sampleMarket
      [sampleIntent "1" "3" "1" "4", sampleIntent "2" "-1" "1" "1"],
      ∀ order ∈ p.2, 0 < order.filled.toNat → 0 < order.remaining.toNat →
        BatchMatch.MarginLasts order := by
    decide +kernel
  have hserver : ∃ p ∈ Server.matchOrders sampleHost sampleHost.poseidon2Hash none
      ⟨"batch-1".toList, [sampleOrder "1" 3 1 4, sampleOrder "2" (-1) 1 1], sampleConfig⟩,
      ∀ order ∈ p.2, 0 < order.filled → 0 < order.remaining →
        order.size ≤ order.intent.margin * order.remaining := by
    decide +kernel
  obtain ⟨⟨book, orders⟩, hrun, hlasts⟩ := hguest
  obtain ⟨⟨book', orders'⟩, hrun', hlasts'⟩ := hserver
  have hpass := residuals_pass_iff sampleHost sampleHost.poseidon2Hash
  exact ⟨(hpass.1 _ _ book orders hrun).mpr hlasts, (hpass.2 _ book' orders' hrun').mpr hlasts'⟩

/-- An order of size two and margin one, half of which is filled, aborts the match of both orders in
both matchers. -/
theorem exists_residual_aborts :
    (BatchMatch.matchOrders sampleHost .release BatchMatch.sampleMarket
        [sampleIntent "1" "2" "1" "1", sampleIntent "2" "-1" "1" "1"]).isSome ∧
      BatchMatch.matchBatch sampleHost .release BatchMatch.sampleMarket
        [sampleIntent "1" "2" "1" "1", sampleIntent "2" "-1" "1" "1"] = none ∧
      (Server.matchOrders sampleHost sampleHost.poseidon2Hash none ⟨"batch-1".toList,
        [sampleOrder "1" 2 1 1, sampleOrder "2" (-1) 1 1], sampleConfig⟩).isSome ∧
      Server.matchBatch sampleHost sampleHost.poseidon2Hash none ⟨"batch-1".toList,
        [sampleOrder "1" 2 1 1, sampleOrder "2" (-1) 1 1], sampleConfig⟩ = none := by
  decide +kernel

end Pnlx
