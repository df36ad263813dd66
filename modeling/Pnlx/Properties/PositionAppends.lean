import Pnlx.Properties.PositionSpending
import Pnlx.Properties.PositionTree

/-!
# What is appended to a position state

Settlements and closes append the positions of their arguments to the position state of their
contract. `Appended p c leaves` says that the position state `p` is at the end of a run that has
appended `leaves`.

1. `settle_appended`, `settlePositionClose_appended`, `settlePair_appended`: a successful settlement
   and a successful close append their positions, in order.
2. `Appended.step`: any other call leaves the appended positions as they are.
-/

namespace Pnlx

open Program PositionState

variable {H : Host} {p : Address} {env : Env} {c c' : Chain H} {leaves : List BytesN32}

/-- The position state `p` has appended `leaves` since its tree was started. -/
def Appended (p : Address) (c : Chain H) (leaves : List BytesN32) : Prop :=
  ∃ past, History p past c leaves

theorem Appended.elsewhere (h : Appended p c leaves)
    (hsame : c'.storage .positionState p = c.storage .positionState p) : Appended p c' leaves := by
  obtain ⟨past, hist⟩ := h
  exact ⟨_, hist.elsewhere hsame⟩

theorem Appended.sameAt (h : Appended p c leaves) (hsame : Chain.SameAt .positionState c c') :
    Appended p c' leaves :=
  h.elsewhere (congrFun (show c'.storage .positionState = c.storage .positionState from hsame) p)

/-- An update of a contract of another kind. -/
theorem Appended.modify {k : Kind} {a : Address} {f : k.Storage → k.Storage}
    (h : Appended p c leaves) (hk : Kind.positionState ≠ k) : Appended p (c.modify k a f) leaves :=
  h.elsewhere (Chain.storage_modify_of_kind hk)

/-! ## Settlements and closes -/

section Facts

instance factStatePool : Fact (Kind.positionState ≠ .shieldedPool) := ⟨by decide⟩

instance factStateRegistry : Fact (Kind.positionState ≠ .intentRegistry) := ⟨by decide⟩

instance factStateBatch : Fact (Kind.positionState ≠ .batchSettlement) := ⟨by decide⟩

instance factStateClose : Fact (Kind.positionState ≠ .positionClose) := ⟨by decide⟩

instance factStateLiquidation : Fact (Kind.positionState ≠ .liquidation) := ⟨by decide⟩

end Facts

section Appends

variable {u : Unit}

/-- **A settlement appends its new positions.** -/
theorem settle_appended {args : SettleArgs} (hist : Appended p c leaves)
    (hp : (c.storage .batchSettlement env.current).positionState = some p)
    (h : Returns (BatchSettlement.settle args) env c u c') :
    Appended p c' (leaves ++ args.newCommitments) := by
  unfold BatchSettlement.settle BatchSettlement.validateProof BatchSettlement.validatePublicInputs
    BatchSettlement.appendPositions at h
  simp only [returns_bind, returns_load, returns_stored, returns_failIf, returns_call,
    returns_currentContract, exists_eq_left, exists_and_left, and_assoc, exists_const, not_not,
    ne_eq] at h
  obtain ⟨_, _, hargs, _, _, hproof, -, -, -, _, _, hactive, _, _, hpriority, _, c₁, hspend,
    _, c₂, hchange, _, c₃, hconsume, oracle, c₄, hprice, receipt, c₅,
    ⟨p', hpositions, happend⟩, _, c₆, haccrue, hset⟩ := h
  obtain rfl := ReadOnly.eq hargs
  obtain rfl := ReadOnly.eq hproof
  obtain rfl := ReadOnly.eq hactive
  obtain rfl := ReadOnly.eq hpriority
  -- the position state is the one configured at the start
  have hconfig₁ := Respects.rel (R := BatchSettlement.SameConfig) hspend env.current
  have hconfig₂ := Respects.rel (R := BatchSettlement.SameConfig) hchange env.current
  have hconfig₃ := Respects.rel (R := BatchSettlement.SameConfig) hconsume env.current
  have hconfig₄ := Respects.rel (R := BatchSettlement.SameConfig) hprice env.current
  rw [hconfig₄.2.2, hconfig₃.2.2, hconfig₂.2.2, hconfig₁.2.2, hp] at hpositions
  obtain rfl := Option.some.inj hpositions
  have hist₁ := hist.sameAt (Respects.rel (R := Chain.SameAt .positionState) hspend)
  have hist₂ := hist₁.sameAt (Respects.rel (R := Chain.SameAt .positionState) hchange)
  have hist₃ := hist₂.sameAt (Respects.rel (R := Chain.SameAt .positionState) hconsume)
  obtain ⟨past, hist₄⟩ := hist₃.sameAt (Respects.rel (R := Chain.SameAt .positionState) hprice)
  have hist₅ : Appended p c₅ (leaves ++ args.newCommitments) :=
    ⟨_, hist₄.appendMany (Env.current_invoke p env) happend⟩
  have hist₆ := hist₅.sameAt (Respects.rel (R := Chain.SameAt .positionState) haccrue)
  rw [returns_modifyStorage.mp hset]
  exact hist₆.modify (by decide)

/-- **A close appends the position that is left.** -/
theorem settlePositionClose_appended {args : CloseArgs} {trigger : Bool}
    (hist : Appended p c leaves)
    (hp : (c.storage .positionClose env.current).positionState = some p)
    (h : Returns (PositionClose.settlePositionClose args trigger) env c u c') :
    Appended p c' (leaves ++ [args.newPositionCommitment]) := by
  unfold PositionClose.settlePositionClose PositionClose.validateOracleMarkPrice
    PositionClose.validateProof PositionClose.spendAndAppendPosition at h
  simp only [returns_bind, returns_validateHash, returns_failIf, returns_load, returns_stored,
    returns_call, returns_currentContract, exists_eq_left, exists_and_left, and_assoc, exists_const,
    not_not, ne_eq] at h
  obtain ⟨-, -, -, -, -, -, -, -, _, c₁, hprice, _, c₂, hproof, -, _, c₃, htrigger, -, -,
    appended, c₅, ⟨p', hp', _, c₄, hspend, happend⟩, hset⟩ := h
  have hsame : c₁.storage = c.storage := Respects.rel (R := Chain.SameStorage) hprice
  obtain rfl := ReadOnly.eq hproof
  obtain rfl := ReadOnly.eq htrigger
  rw [hsame, hp] at hp'
  obtain rfl := Option.some.inj hp'
  obtain ⟨past, hist₁⟩ : Appended p c₃ leaves := hist.elsewhere (by rw [hsame])
  have hist₄ := hist₁.spendPosition (Env.current_invoke p env) hspend
  have hist₅ : Appended p c₅ (leaves ++ [args.newPositionCommitment]) :=
    ⟨_, hist₄.append (Env.current_invoke p env) happend⟩
  rw [returns_modifyStorage.mp hset]
  exact hist₅.modify (by decide)

/-- **A paired close appends both positions that are left**, the trader's first. -/
theorem settlePair_appended {trader maker : CloseArgs} {conditional : Bool}
    (hist : Appended p c leaves)
    (hp : (c.storage .positionClose env.current).positionState = some p)
    (h : Returns (PositionClose.settlePair trader maker conditional) env c u c') :
    Appended p c' (leaves ++ [trader.newPositionCommitment, maker.newPositionCommitment]) := by
  obtain ⟨-, -, c₁, htrader, hmaker⟩ := PositionClose.settlePair_returns h
  have hconfig := Respects.rel (R := SamePositionState) htrader env.current
  have hist₁ := settlePositionClose_appended hist hp htrader
  have hist₂ := settlePositionClose_appended hist₁ (hconfig.trans hp) hmaker
  rwa [List.append_assoc] at hist₂

end Appends

/-! ## Transactions -/

/-- The positions that a settlement or a close appends. -/
def Call.newPositions : Call → List BytesN32
  | closeSettle args | closeSettleManual args => [args.newPositionCommitment]
  | closeSettlePairManual trader maker | closeSettlePairConditional trader maker =>
    [trader.newPositionCommitment, maker.newPositionCommitment]
  | batchSettle args => args.newCommitments
  | _ => []

/-- The position state of the contract that a settlement or a close calls. -/
def Tx.positionState (c : Chain H) (tx : Tx) : Option Address :=
  match tx.call with
  | .closeSettle _ | .closeSettleManual _ | .closeSettlePairManual _ _
  | .closeSettlePairConditional _ _ => (c.storage .positionClose tx.target).positionState
  | .batchSettle _ => (c.storage .batchSettlement tx.target).positionState
  | _ => none

/-- A successful settlement or close appends its positions. -/
theorem Appended.commit {tx : Tx} (hist : Appended p c leaves) (hp : tx.positionState c = some p)
    (h : step c (.invoke tx) = .ok c') : Appended p c' (leaves ++ tx.call.newPositions) := by
  have hrun := step_invoke_eq_ok.mp h
  obtain ⟨signers, timestamp, target, call⟩ := tx
  cases call
  case closeSettle | closeSettleManual =>
    refine settlePositionClose_appended hist ?_ hrun
    exact hp
  case closeSettlePairManual | closeSettlePairConditional =>
    refine settlePair_appended hist ?_ hrun
    exact hp
  case batchSettle =>
    refine settle_appended hist ?_ hrun
    exact hp
  all_goals exact absurd hp (by simp [Tx.positionState])

/-- The calls that start a tree of positions or append to one. -/
def Call.growsTree : Call → Bool
  | stateInit _ | stateResetForPoseidon2 | stateAppend _ _ | stateAppendMany _ _ | closeSettle _
  | closeSettleManual _ | closeSettlePairManual _ _ | closeSettlePairConditional _ _
  | batchSettle _ => true
  | _ => false

/-- A spend leaves the appended positions as they are, whichever position state it calls. -/
theorem Appended.spend {writer : Address} {root commitment nullifier : BytesN32} {u : Unit}
    (hist : Appended p c leaves)
    (h : Returns (spendPosition writer root commitment nullifier) env c u c') :
    Appended p c' leaves := by
  by_cases hp : env.current = p
  · obtain ⟨past, hist⟩ := hist
    exact ⟨_, hist.spendPosition hp h⟩
  · unfold spendPosition requireWriter validateCommitment at h
    simp only [returns_bind, returns_requireAuth, returns_failIf, returns_load,
      returns_modifyStorage, exists_eq_left, exists_and_left, and_assoc, exists_const] at h
    obtain ⟨-, -, -, -, -, -, rfl⟩ := h
    exact hist.elsewhere (Chain.storage_modify_of_address (Ne.symm hp))

theorem Appended.setWriter {writer : Address} {enabled : Bool} {u : Unit}
    (hist : Appended p c leaves) (h : Returns (setWriter writer enabled) env c u c') :
    Appended p c' leaves := by
  by_cases hp : env.current = p
  · obtain ⟨past, hist⟩ := hist
    exact ⟨_, hist.setWriter hp h⟩
  · unfold PositionState.setWriter at h
    simp only [returns_bind, returns_modifyStorage] at h
    obtain ⟨_, c₁, hadmin, rfl⟩ := h
    rw [ReadOnly.eq hadmin]
    exact hist.elsewhere (Chain.storage_modify_of_address (Ne.symm hp))

theorem Appended.liquidate {args : LiquidationArgs} {u : Unit} (hist : Appended p c leaves)
    (h : Returns (Liquidation.liquidate args) env c u c') : Appended p c' leaves := by
  unfold Liquidation.liquidate Liquidation.validateOracleMarkPrice Liquidation.validateProof
    Liquidation.spendPosition at h
  simp only [returns_bind, returns_validateHash, returns_failIf, returns_load, returns_stored,
    returns_call, returns_currentContract, exists_eq_left, exists_and_left, and_assoc, exists_const,
    not_not, ne_eq] at h
  obtain ⟨-, -, -, -, -, -, -, _, c₁, hprice, _, c₂, hproof, -, -, _, c₃, ⟨p', -, hspend⟩,
    hset⟩ := h
  have hsame : c₁.storage = c.storage := Respects.rel (R := Chain.SameStorage) hprice
  obtain rfl := ReadOnly.eq hproof
  have hist₁ : Appended p c₂ leaves := hist.elsewhere (by rw [hsame])
  rw [returns_modifyStorage.mp hset]
  exact (hist₁.spend hspend).modify (by decide)

/-- **Any other action leaves the appended positions as they are.** -/
theorem Appended.step {a : Action H} (hist : Appended p c leaves)
    (ha : ∀ tx, a = .invoke tx → tx.call.growsTree = false) (h : step c a = .ok c') :
    Appended p c' leaves := by
  cases a with
  | external state =>
    obtain rfl := Except.ok.inj h
    exact hist.elsewhere rfl
  | invoke tx =>
    have hgrows := ha tx rfl
    have hrun := step_invoke_eq_ok.mp h
    by_cases htouches : Kind.positionState ∈ tx.call.touches
    · obtain ⟨signers, timestamp, target, call⟩ := tx
      cases call
      case stateSetWriter => exact hist.setWriter hrun
      case stateSpendPosition => exact hist.spend hrun
      case liquidationLiquidate => exact hist.liquidate hrun
      case closeInit | liquidationInit | batchInit | batchConfigureFeeToken |
          batchClaimResidual =>
        dsimp only [Call.run] at hrun
        exact hist.sameAt (Respects.rel hrun)
      case stateInit | stateResetForPoseidon2 | stateAppend | stateAppendMany | closeSettle |
          closeSettleManual | closeSettlePairManual | closeSettlePairConditional | batchSettle =>
        exact Bool.noConfusion hgrows
      all_goals exact absurd htouches (by simp [Call.touches])
    · exact hist.sameAt ((sameAt_run htouches).rel hrun)

end Pnlx
