import Pnlx.Digests
import Pnlx.Frames
import Pnlx.SampleHost

/-!
# Spent positions in a run

`runPositionSpends c as` lists the successful closes and liquidations of a run with their position
state, in order; a paired close gives two.

1. `spent_of_mem`: what each of them has checked and done.
2. The position state records a nullifier under its 32 bytes. A run whose closes and liquidations
   pass canonical nullifiers spends at most once for each field element and for each proof
   (`positionSpends_nodup`); a nullifier and its alias above the modulus close a position twice with
   one proof.
-/

namespace Pnlx

open Program Runs

variable {H : Host}

/-- A close or a liquidation. -/
inductive PositionSpend where
  | close (args : CloseArgs)
  | liquidation (args : LiquidationArgs)
  deriving DecidableEq

namespace PositionSpend

def isClose : PositionSpend → Bool
  | close _ => true
  | liquidation _ => false

def nullifier : PositionSpend → BytesN32
  | close args => args.positionNullifier
  | liquidation args => args.positionNullifier

def proof : PositionSpend → ProofMeta
  | close args => args.proof
  | liquidation args => args.proof

def publicInputs : PositionSpend → List Fr
  | close args => args.publicInputs
  | liquidation args => args.publicInputs

/-- The public inputs of a circuit contain the field element of the nullifier. -/
theorem toField_nullifier_eq {s t : PositionSpend} (hkind : s.isClose = t.isClose)
    (h : s.publicInputs = t.publicInputs) : toField s.nullifier = toField t.nullifier := by
  cases s with
  | close a =>
    cases t with
    | close b =>
      unfold publicInputs CloseArgs.publicInputs at h
      simp only [List.cons.injEq] at h
      exact h.2.2.2.2.1
    | liquidation b => exact Bool.noConfusion hkind
  | liquidation a =>
    cases t with
    | close b => exact Bool.noConfusion hkind
    | liquidation b =>
      unfold publicInputs LiquidationArgs.publicInputs at h
      simp only [List.cons.injEq] at h
      exact h.2.2.2.2.2.2.1

end PositionSpend

def Call.closes : Call → List CloseArgs
  | closeSettle args | closeSettleManual args => [args]
  | closeSettlePairManual trader maker | closeSettlePairConditional trader maker => [trader, maker]
  | _ => []

def Call.liquidations : Call → List LiquidationArgs
  | liquidationLiquidate args => [args]
  | _ => []

/-- The closes and liquidations of a step with the position state that their contract uses. -/
def positionSpends (x : Step (Chain H) (Action H)) : List (Option Address × PositionSpend) :=
  match x.act with
  | .invoke tx =>
    (tx.call.closes.map fun args =>
      ((x.pre.storage .positionClose tx.target).positionState, .close args)) ++
    tx.call.liquidations.map fun args =>
      ((x.pre.storage .liquidation tx.target).positionState, .liquidation args)
  | .external _ => []

def runPositionSpends (c : Chain H) (as : List (Action H)) : List (Option Address × PositionSpend) :=
  (accepted step c as).flatMap positionSpends

/-! ## What a step has checked and done -/

/-- The position state that every instance of the close contract uses. -/
def SamePositionState (c c' : Chain H) : Prop :=
  ∀ a, (c'.storage .positionClose a).positionState = (c.storage .positionClose a).positionState

instance : Std.Refl (SamePositionState (H := H)) := ⟨fun _ _ => rfl⟩

instance : IsTrans (Chain H) SamePositionState := ⟨fun _ _ _ h h' a => (h' a).trans (h a)⟩

instance : Fact (Kind.positionClose ≠ .positionState) := ⟨by decide⟩

/-- A close leaves the configuration of its contract alone. -/
instance samePositionState_settlePositionClose {args : CloseArgs} {trigger : Bool} :
    Respects SamePositionState
      (PositionClose.settlePositionClose args trigger : Contract H Unit) := by
  have hsame {α : Type} {x : Contract H α} (hx : Respects (Chain.SameAt .positionClose) x) :
      Respects SamePositionState x :=
    hx.mono fun c c' h a => by rw [show c'.storage .positionClose = c.storage .positionClose from h]
  have hprice : Respects SamePositionState
      (PositionClose.validateOracleMarkPrice args.marketId args.markPrice : Contract H Unit) :=
    hsame (sameAt_of_sameStorage inferInstance)
  have hspend : Respects SamePositionState
      (PositionClose.spendAndAppendPosition args : Contract H AppendReceipt) := by
    unfold PositionClose.spendAndAppendPosition PositionState.append
    exact hsame inferInstance
  unfold PositionClose.settlePositionClose
  repeat refine Respects.andThen inferInstance fun _ => ?_
  refine ⟨fun {env c _ _} h a => ?_⟩
  rw [returns_modifyStorage.mp h]
  by_cases ha : a = env.current
  · subst ha
    rw [Chain.storage_modify_self]
  · rw [Chain.storage_modify_of_address ha]

/-- A position state has recorded a nullifier as spent. -/
def NullifierSpent (c : Chain H) (k : Option Address × BytesN32) : Prop :=
  ∃ p, k.1 = some p ∧ ((c.storage .positionState p).spent k.2).isSome

theorem NullifierSpent.mono {c c' : Chain H} (h : c.Grows c') {k : Option Address × BytesN32}
    (hk : NullifierSpent c k) : NullifierSpent c' k := by
  obtain ⟨p, hp, hspent⟩ := hk
  exact ⟨p, hp, (h .positionState p).1 _ hspent⟩

theorem not_nullifierSpent {c : Chain H} {state : Option Address} {p : Address}
    {nullifier : BytesN32} (hp : state = some p)
    (h : (c.storage .positionState p).spent nullifier = none) :
    ¬ NullifierSpent c (state, nullifier) := by
  rintro ⟨p', hp', hspent⟩
  obtain rfl : p = p' := Option.some.inj (hp.symm.trans hp')
  simp only [h] at hspent
  exact Bool.noConfusion hspent

/-- What a close or a liquidation has checked and done: it has shown a proof of its public inputs,
and has found its nullifier unspent in the position state and has spent it. -/
structure SpentPosition (c c' : Chain H) (s : Option Address × PositionSpend) : Prop where
  hash : s.2.proof.publicInputHash = H.sha256 (encodePublicInputs s.2.publicInputs)
  fresh : ¬ NullifierSpent c (s.1, s.2.nullifier)
  spent : NullifierSpent c' (s.1, s.2.nullifier)

theorem spentPosition_of_closed {args : CloseArgs} {env : Env} {c c' : Chain H}
    (h : PositionClose.Closed env c c' args) :
    SpentPosition c c' ((c.storage .positionClose env.current).positionState, .close args) := by
  obtain ⟨p, hp, hfresh, hspent⟩ := h.spent
  exact ⟨h.hash, not_nullifierSpent hp hfresh, p, hp, hspent⟩

theorem spentPosition_of_liquidated {args : LiquidationArgs} {env : Env} {c c' : Chain H}
    (h : Liquidation.Liquidated env c c' args) :
    SpentPosition c c' ((c.storage .liquidation env.current).positionState, .liquidation args) := by
  obtain ⟨p, hp, hfresh, hspent⟩ := h.spent
  exact ⟨h.hash, not_nullifierSpent hp hfresh, p, hp, hspent⟩

/-- Two spends in a row are two spends over both steps, under different nullifiers. -/
theorem spentPosition_trans {c c₁ c' : Chain H} {s t : Option Address × PositionSpend}
    (hs : SpentPosition c c₁ s) (ht : SpentPosition c₁ c' t) (h : c.Grows c₁) (h' : c₁.Grows c') :
    SpentPosition c c' s ∧ SpentPosition c c' t ∧ (s.1, s.2.nullifier) ≠ (t.1, t.2.nullifier) :=
  ⟨⟨hs.hash, hs.fresh, hs.spent.mono h'⟩, ⟨ht.hash, fun hk => ht.fresh (hk.mono h), ht.spent⟩,
    fun he => ht.fresh (he ▸ hs.spent)⟩

/-- The nullifier of a spend with its position state. -/
def spendBytes (s : Option Address × PositionSpend) : Option Address × BytesN32 :=
  (s.1, s.2.nullifier)

/-- The two closes of a pair. -/
theorem spentPosition_of_pair {trader maker : CloseArgs} {conditional : Bool} {env : Env}
    {c c' : Chain H} (h : Returns (PositionClose.settlePair trader maker conditional) env c () c') :
    let p := (c.storage .positionClose env.current).positionState
    SpentPosition c c' (p, .close trader) ∧ SpentPosition c c' (p, .close maker) ∧
      spendBytes (p, .close trader) ≠ spendBytes (p, .close maker) := by
  obtain ⟨-, -, c₁, htrader, hmaker⟩ := PositionClose.settlePair_returns h
  have hconfig : SamePositionState c c₁ := Respects.rel htrader
  have hs := spentPosition_of_closed (PositionClose.settlePositionClose_returns htrader)
  have ht := spentPosition_of_closed (PositionClose.settlePositionClose_returns hmaker)
  rw [hconfig env.current] at ht
  exact spentPosition_trans hs ht (Respects.rel htrader) (Respects.rel hmaker)

/-- The closes and liquidations of a successful step have different nullifiers, and each has
checked and done what `SpentPosition` says. -/
theorem spent_of_mem {x : Step (Chain H) (Action H)} (h : step x.pre x.act = .ok x.post) :
    ((positionSpends x).map spendBytes).Nodup ∧
      ∀ s ∈ positionSpends x, SpentPosition x.pre x.post s := by
  obtain ⟨c, a, c'⟩ := x
  cases a with
  | external state => exact ⟨List.nodup_nil, fun s hs => absurd hs List.not_mem_nil⟩
  | invoke tx =>
    have hrun : Returns tx.call.run tx.env c () c' := step_invoke_eq_ok.mp h
    unfold positionSpends
    dsimp only
    cases hcall : tx.call <;> rw [hcall] at hrun
    case closeSettle | closeSettleManual =>
      have hs := spentPosition_of_closed (PositionClose.settlePositionClose_returns hrun)
      exact ⟨List.nodup_singleton _, fun s hmem => List.mem_singleton.mp hmem ▸ hs⟩
    case closeSettlePairManual | closeSettlePairConditional =>
      obtain ⟨hs, ht, hne⟩ := spentPosition_of_pair hrun
      refine ⟨List.nodup_cons.mpr ⟨fun hmem => hne (List.mem_singleton.mp hmem),
        List.nodup_singleton _⟩, fun s hmem => ?_⟩
      rcases List.mem_cons.mp hmem with rfl | hmem
      · exact hs
      · exact List.mem_singleton.mp hmem ▸ ht
    case liquidationLiquidate =>
      have hs := spentPosition_of_liquidated (Liquidation.liquidate_returns hrun)
      exact ⟨List.nodup_singleton _, fun s hmem => List.mem_singleton.mp hmem ▸ hs⟩
    all_goals exact ⟨List.nodup_nil, fun s hs => absurd hs List.not_mem_nil⟩

/-! ## No position is spent twice -/

/-- What a spend must not share with another: its position state and the field element of its
nullifier. -/
def spendKey (s : Option Address × PositionSpend) : Option Address × Fr :=
  (s.1, toField s.2.nullifier)

/-- The field element determines a canonical nullifier. -/
theorem spendBytes_eq {s : Option Address × PositionSpend} (h : Canonical s.2.nullifier) :
    spendBytes s = ((spendKey s).1, ofField (spendKey s).2) := by
  unfold spendBytes spendKey
  rw [h.ofField_toField]

/-- The spent nullifiers of the position states guard the spends with canonical nullifiers. -/
theorem replayGuard_positionSpends : ReplayGuard (step (H := H))
    (fun x => ∀ s ∈ positionSpends x, Canonical s.2.nullifier)
    (fun x => (positionSpends x).map spendKey) (fun c k => NullifierSpent c (k.1, ofField k.2)) where
  mono c a c' k h hk := hk.mono (step_grows h)
  fresh x hx hcanonical := by
    obtain ⟨hnodup, hspent⟩ := spent_of_mem hx
    constructor
    · refine nodup_map_of_imp (fun s hs t ht he => ?_) hnodup
      rw [spendBytes_eq (hcanonical s hs), spendBytes_eq (hcanonical t ht), he]
    · intro k hk
      obtain ⟨s, hs, rfl⟩ := List.mem_map.mp hk
      have hbytes := spendBytes_eq (hcanonical s hs)
      rw [← hbytes]
      exact ⟨(hspent s hs).fresh, (hspent s hs).spent⟩

/-- The public-input strings of the successful closes and liquidations of a run. -/
def positionStrings (c : Chain H) (as : List (Action H)) : Set Bytes :=
  {bytes | bytes ∈ (runPositionSpends c as).map fun s => encodePublicInputs s.2.publicInputs}

theorem mem_positionStrings {c : Chain H} {as : List (Action H)} {s : Option Address × PositionSpend}
    (hs : s ∈ runPositionSpends c as) :
    encodePublicInputs s.2.publicInputs ∈ positionStrings c as :=
  List.mem_map.mpr ⟨s, hs, rfl⟩

theorem hash_of_mem {c : Chain H} {as : List (Action H)} {s : Option Address × PositionSpend}
    (hs : s ∈ runPositionSpends c as) :
    s.2.proof.publicInputHash = H.sha256 (encodePublicInputs s.2.publicInputs) := by
  obtain ⟨x, hx, hmem⟩ := List.mem_flatMap.mp hs
  exact ((spent_of_mem (accepted_ok x hx).1).2 s hmem).hash

/-- **No position is spent twice, if nullifiers are canonical.** In such a run at most one close or
liquidation succeeds for each field element in one position state, and at most one for each proven
statement of either circuit. -/
theorem positionSpends_nodup {c : Chain H} {as : List (Action H)}
    (hcanonical : ∀ s ∈ runPositionSpends c as, Canonical s.2.nullifier)
    (hsha : H.ShaInjOn (positionStrings c as)) :
    ((runPositionSpends c as).map spendKey).Nodup ∧
      ((runPositionSpends c as).map fun s =>
        (s.1, s.2.isClose, s.2.proof.publicInputHash)).Nodup := by
  have hfields : ((runPositionSpends c as).map spendKey).Nodup := by
    unfold runPositionSpends
    rw [List.map_flatMap]
    exact replayGuard_positionSpends.nodup fun x hx s hs =>
      hcanonical s (List.mem_flatMap.mpr ⟨x, hx, hs⟩)
  refine ⟨hfields, nodup_map_of_imp (fun s hs t ht he => ?_) hfields⟩
  obtain ⟨hstate, hkind, hhash⟩ : s.1 = t.1 ∧ s.2.isClose = t.2.isClose ∧
      s.2.proof.publicInputHash = t.2.proof.publicInputHash := by
    simpa only [Prod.mk.injEq] using he
  rw [hash_of_mem hs, hash_of_mem ht] at hhash
  have hinputs := encodePublicInputs_injective
    (hsha (mem_positionStrings hs) (mem_positionStrings ht) hhash)
  exact Prod.ext hstate (PositionSpend.toField_nullifier_eq hkind hinputs)

section Examples

open SampleHost

/-- A ledger on which the oracle of contract 20 prices two assets. -/
def oracleLedger : Chain sampleHost := Chain.blank
  ⟨[], [((.contract 20, .other "A"), ⟨1500, 0⟩), ((.contract 20, .other "B"), ⟨1600, 0⟩)]⟩

/-- A market with the oracle of contract 20. -/
def sampleMarket (asset : String) : MarketConfig where
  oracleContract := .contract 20
  oracleKind := "sep40"
  oracleAsset := .other asset
  beamFeeToken := none
  oracleMaxAge := 60
  oracleTwapRecords := 1
  priceDecimals := 8
  maxLeverage := 10
  initialRate := 100000
  maintenanceRate := 50000
  fundingIndex := 0
  active := true

/-- The deployment of the contracts around the position state, with the markets A and B
and a recorded position. -/
def deployPositions (p : Position) : List (Action sampleHost) :=
  [adminTx (.contract 2) (.governanceInit sampleAdmin),
    adminTx (.contract 2) (.governanceSetVerifier 5 2 sampleAdmin),
    adminTx (.contract 3) (.proofLedgerInit (.contract 2)),
    adminTx (.contract 6) (.marketInit (.contract 2)),
    adminTx (.contract 6) (.marketUpsert (marketKey sampleHost "A") (sampleMarket "A")),
    adminTx (.contract 6) (.marketUpsert (marketKey sampleHost "B") (sampleMarket "B")),
    adminTx (.contract 7) (.stateInit (.contract 2)),
    adminTx (.contract 7) (.stateSetWriter sampleAdmin true),
    adminTx (.contract 7) (.stateSetWriter (.contract 8) true),
    adminTx (.contract 7) (.stateAppend sampleAdmin (ofField (p.commitment sampleHost))),
    adminTx (.contract 8)
      (.closeInit (.contract 2) (.contract 3) (.contract 9) (.contract 6) (.contract 7) 5)]

/-- The deployment of a liquidation contract beside them. -/
def deployLiquidation : List (Action sampleHost) :=
  [adminTx (.contract 2) (.governanceSetVerifier 9 2 sampleAdmin),
    adminTx (.contract 7) (.stateSetWriter (.contract 10) true),
    adminTx (.contract 10)
      (.liquidationInit (.contract 2) (.contract 3) (.contract 6) (.contract 7) 9)]

/-- The record of a proof of the close circuit. -/
def recordClose (a : PositionCloseCircuit.Assignment) : Action sampleHost :=
  adminTx (.contract 3) (.proofLedgerRecord sampleAdmin (proofOf 5 a.publicInputs).key)

/-- A manual close by somebody without any authorisation. -/
def closeTx (args : CloseArgs) : Action sampleHost :=
  .invoke ⟨[], 0, .contract 8, .closeSettleManual args⟩

/-- The record of a proof of the liquidation circuit. -/
def recordLiquidation (a : LiquidationCheck.Assignment) : Action sampleHost :=
  adminTx (.contract 3) (.proofLedgerRecord sampleAdmin (proofOf 9 a.publicInputs).key)

/-- A liquidation by somebody without any authorisation. -/
def liquidationTx (args : LiquidationArgs) : Action sampleHost :=
  .invoke ⟨[], 0, .contract 10, .liquidationLiquidate args⟩

/-- The close at 1500 of a long position. -/
def sampleClose : PositionCloseCircuit.Assignment :=
  closePosition ⟨true, 200000000, 1000, 5000, 0, 17, 5, 6, 7⟩ 1500 0 false 0 6000 3 21 11

def sampleCloseArgs : CloseArgs := closeArgs (marketKey sampleHost "A") 5 sampleClose

/-- The short position behind it in the tree, whose loss of 1000 leaves nothing of its margin. -/
def underwaterPosition : Position := ⟨false, 200000000, 1000, 900, 0, 17, 15, 16, 17⟩

/-- Its liquidation at 1500. -/
def underwaterLiquidation : LiquidationCheck.Assignment :=
  let siblings := (emptyPath 20).set 0 (sampleClose.position.commitment sampleHost)
  let indices := (Vector.replicate 20 false).set 0 true
  { liquidatePosition underwaterPosition 1500 50000 0 false 22 12 with
    pathSiblings := siblings
    pathIndices := indices
    positionRoot := merkleRoot sampleHost (underwaterPosition.commitment sampleHost) siblings indices }

/-- The first of two positions is closed, and the second is liquidated. -/
def closedAndLiquidated : List (Action sampleHost) :=
  deployPositions sampleClose.position ++ deployLiquidation ++
    [adminTx (.contract 7)
        (.stateAppend sampleAdmin (ofField (underwaterPosition.commitment sampleHost))),
      recordClose sampleClose, recordLiquidation underwaterLiquidation, closeTx sampleCloseArgs,
      liquidationTx (liquidationArgs (marketKey sampleHost "A") 9 underwaterLiquidation)]

/-- A position is closed under its nullifier and under the aliases of nullifier and close. -/
def closedTwice : List (Action sampleHost) :=
  deployPositions sampleClose.position ++
    [recordClose sampleClose, closeTx sampleCloseArgs,
      closeTx { sampleCloseArgs with
        positionNullifier :=
          ofField sampleClose.positionNullifier + BitVec.ofNat 256 bn254ScalarModulus
        closeCommitment :=
          ofField sampleClose.closeCommitment + BitVec.ofNat 256 bn254ScalarModulus }]

/-- Two positions are spent, one by a close and one by a liquidation. -/
theorem positionSpends_nodup_closedAndLiquidated :
    LiquidationCheck.main sampleHost underwaterLiquidation = some () ∧
      ((runPositionSpends oracleLedger closedAndLiquidated).map fun s => s.2.isClose) =
        [true, false] ∧
      ((runPositionSpends oracleLedger closedAndLiquidated).map spendKey).Nodup ∧
      ((runPositionSpends oracleLedger closedAndLiquidated).map fun s =>
        (s.1, s.2.isClose, s.2.proof.publicInputHash)).Nodup :=
  ⟨by decide +kernel, by decide +kernel,
    positionSpends_nodup (by decide +kernel) (shaInjOn_of_list (by decide +kernel))⟩

/-- One verified proof closes a position twice. -/
theorem exists_double_close :
    ∃ (e : sampleHost.State) (as : List (Action sampleHost))
      (a : PositionCloseCircuit.Assignment),
      PositionCloseCircuit.main sampleHost a = some () ∧
      (∀ key ∈ as.flatMap Action.recordedKeys,
        key.publicInputHash = sampleHost.sha256 (encodePublicInputs a.publicInputs)) ∧
      sampleHost.ShaInjOn (positionStrings (Chain.blank e) as) ∧
      ¬ ((runPositionSpends (Chain.blank e) as).map spendKey).Nodup :=
  ⟨_, closedTwice, sampleClose, by decide +kernel, by decide +kernel,
    shaInjOn_of_list (by decide +kernel),
    (by decide +kernel : ¬ ((runPositionSpends oracleLedger closedTwice).map spendKey).Nodup)⟩

end Examples

end Pnlx
