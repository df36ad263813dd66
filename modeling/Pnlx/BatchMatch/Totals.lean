import Pnlx.BatchMatch.Exact

/-!
# The totals of a match

Every build computes the same totals where they fit the words, and the fills of a trade cancel out in
the signed total (`filledSigned_eq`).
-/

namespace Pnlx.BatchMatch

variable {k : Checks} {orders filled : List BookOrder} {trades : List Trade}

/-- The total size of the orders of a side. -/
def sizeOfSide (orders : List BookOrder) (side : Side) : ℕ :=
  sumOf (·.size) (orders.filter (·.side = side))

theorem sum_of_lt {l : List U128} (h : (l.map BitVec.toNat).sum < 2 ^ 128) :
    ∃ total, sum k l = some total ∧ total.toNat = (l.map BitVec.toNat).sum := by
  have hzero : (0 : U128).toNat = 0 := rfl
  obtain ⟨total, htotal, hval⟩ := @sumFrom_eq_some k 0 l (by rw [hzero, Nat.zero_add]; exact h)
  exact ⟨total, htotal, by rw [hval, hzero, Nat.zero_add]⟩

theorem totalFees_of_lt {executions : List Execution} {fees : FillFees}
    (hsplit : ∀ execution ∈ executions, execution.grossTakerFee.toNat =
      execution.makerRebate.toNat + execution.insurance.toNat + execution.treasury.toNat)
    (hfees : fees.grossTakerFee.toNat =
      fees.makerRebate.toNat + fees.insurance.toNat + fees.treasury.toNat)
    (hlt : fees.grossTakerFee.toNat + sumOf (·.grossTakerFee) executions < 2 ^ 128) :
    (executions.foldlM (addFees k) fees).isSome := by
  induction executions generalizing fees with
  | nil => rfl
  | cons execution executions ih =>
    have hsplit₁ := hsplit execution List.mem_cons_self
    rw [sumOf_cons] at hlt
    have hgross := toNat_add_of_lt (x := fees.grossTakerFee) (y := execution.grossTakerFee) (by omega)
    have hrebate := toNat_add_of_lt (x := fees.makerRebate) (y := execution.makerRebate) (by omega)
    have hinsurance := toNat_add_of_lt (x := fees.insurance) (y := execution.insurance) (by omega)
    have htreasury := toNat_add_of_lt (x := fees.treasury) (y := execution.treasury) (by omega)
    have hnext : addFees k fees execution = some ⟨fees.grossTakerFee + execution.grossTakerFee,
        fees.makerRebate + execution.makerRebate, fees.insurance + execution.insurance,
        fees.treasury + execution.treasury⟩ := by
      unfold addFees
      rw [add_of_lt (by omega), add_of_lt (by omega), add_of_lt (by omega), add_of_lt (by omega)]
      rfl
    rw [List.foldlM_cons, hnext]
    refine ih (fun e he => hsplit e (List.mem_cons_of_mem _ he)) ?_ ?_
    · simp only
      omega
    · simp only
      omega

theorem addSigned_of_fits {x y : I128} (h : FitsI128 (x.toInt + y.toInt)) :
    addSigned k x y = some (x + y) :=
  guarded_eq_some.mpr ⟨fun _ => h, rfl⟩

theorem signedFor_of_lt {size : U128} (h : size.toNat < 2 ^ 127) (side : Side) :
    signedFor k side size = some (if side = .long then size else -size) := by
  have hint := toInt_of_lt h
  have hneg : FitsI128 (-size.toInt) := by
    unfold FitsI128
    omega
  unfold signedFor asI128 negSigned
  simp only [guarded_eq_some.mpr ⟨fun _ => h, rfl⟩, guarded_eq_some.mpr ⟨fun _ => hneg, rfl⟩,
    Option.bind_eq_bind, Option.bind_some]
  split_ifs <;> rfl

/-- The fills of a trade cancel out. -/
theorem filledSigned_eq (h : ∀ trade ∈ trades, trade.longFill.side = .long ∧
      trade.shortFill.side = .short ∧ trade.shortFill.size = trade.longFill.size ∧
      trade.longFill.size.toNat < 2 ^ 127) :
    (trades.flatMap fun trade => [trade.longFill, trade.shortFill]).foldlM (addSignedFill k) 0 =
      some 0 := by
  induction trades with
  | nil => rfl
  | cons trade trades ih =>
    obtain ⟨hlong, hshort, hsize, hlt⟩ := h trade List.mem_cons_self
    have hint := toInt_of_lt hlt
    have hneg := toInt_neg_of_lt hlt
    have hzero : (0 : I128).toInt = 0 := rfl
    have hadd : addSignedFill k 0 trade.longFill = some trade.longFill.size := by
      unfold addSignedFill
      rw [signedFor_of_lt hlt, if_pos hlong]
      show addSigned k 0 _ = _
      rw [addSigned_of_fits (by unfold FitsI128; omega), zero_add]
    have hsub : addSignedFill k trade.longFill.size trade.shortFill = some 0 := by
      unfold addSignedFill
      rw [hsize, signedFor_of_lt hlt, if_neg (by rw [hshort]; decide)]
      show addSigned k _ _ = _
      rw [addSigned_of_fits (by unfold FitsI128; omega), add_neg_cancel]
    rw [List.flatMap_cons, List.foldlM_append]
    show ((addSignedFill k 0 trade.longFill).bind fun total =>
      (addSignedFill k total trade.shortFill).bind fun total => some total).bind _ = _
    rw [hadd, Option.bind_some, hsub]
    exact ih fun t ht => h t (List.mem_cons_of_mem _ ht)

theorem sideSize_fresh (side : Side) : sideSize k (filled.map fresh) side = sideSize k filled side := by
  unfold sideSize
  rw [List.filter_map, List.map_map]
  rfl

theorem sideSize_of_lt {side : Side} (h : sizeOfSide orders side < 2 ^ 128) :
    ∃ total, sideSize k orders side = some total ∧ total.toNat = sizeOfSide orders side := by
  have hsizes : (((orders.filter (·.side = side)).map (·.size)).map BitVec.toNat).sum =
      sizeOfSide orders side := by
    rw [List.map_map]
    rfl
  obtain ⟨total, htotal, hval⟩ := sum_of_lt (k := k) (hsizes ▸ h)
  exact ⟨total, htotal, hval.trans hsizes⟩

end Pnlx.BatchMatch
