import Pnlx.Frames
import Pnlx.Lib.Lineage
import Pnlx.SampleHost

/-!
# The life of an intent

An intent is submitted, and ends cancelled, consumed or rolled over into a residual intent. The
registry is a book of items that replace one another, where the label of an intent is its
submission sequence with its batch and market (`book`).

1. `submit_registers`, `markCancelled_registers`, `rollover_registers`: what the calls do to the
   book, and `consumeFilledIntents_registers` for the calls that a settlement makes.
2. `registryEvents r x`: what the accepted step `x` asks of the registry `r`.
3. `intents_lifecycle`: what a run of the system leaves in a registry.
-/

namespace Pnlx.IntentRegistry

open Program Runs Lineage

variable {H : Host} {env : Env} {c c' : Chain H}

/-- The label of an intent: its submission sequence, batch and market. -/
def labelOf (s : IntentRegistryStorage) (i : BytesN32) : Option (ℕ × BytesN32 × BytesN32) :=
  (s.intent i).bind fun m => (s.submissionSequence i).map fun n => (n, m.batchId, m.marketId)

/-- The book that the registry keeps. -/
def book (s : IntentRegistryStorage) : Book BytesN32 (BytesN32 × BytesN32) :=
  ⟨labelOf s, s.cancelled, s.nextSubmissionSequence.getD 0⟩

/-- Every intent has a submission sequence. -/
def Numbered (s : IntentRegistryStorage) : Prop :=
  ∀ i, (s.intent i).isSome → (s.submissionSequence i).isSome

/-- The events lead from the book of one storage to that of the other. -/
def Registers (events : List (Event BytesN32)) (s s' : IntentRegistryStorage) : Prop :=
  Numbered s → Numbered s' ∧ Moves (book s) events (book s')

/-- `is_active_intent`. -/
def IsActive (s : IntentRegistryStorage) (i : BytesN32) : Prop :=
  (s.intent i).isSome ∧ ¬ s.cancelled i

theorem labelOf_eq_none {s : IntentRegistryStorage} {i : BytesN32} (h : s.intent i = none) :
    labelOf s i = none := by
  rw [labelOf, h, Option.bind_none]

theorem active_iff {s : IntentRegistryStorage} (hs : Numbered s) {i : BytesN32} :
    (book s).Active i ↔ IsActive s i := by
  refine and_congr_left fun _ => ⟨fun h => ?_, fun h => ?_⟩
  · cases hi : s.intent i with
    | none =>
      rw [show (book s).label i = none from labelOf_eq_none hi] at h
      exact absurd h Bool.false_ne_true
    | some m => rfl
  · obtain ⟨m, hm⟩ := Option.isSome_iff_exists.mp h
    obtain ⟨n, hn⟩ := Option.isSome_iff_exists.mp (hs i h)
    show (labelOf s i).isSome
    rw [labelOf, hm, Option.bind_some, hn]
    rfl

namespace Registers

variable {s s₁ s' : IntentRegistryStorage} {events events' : List (Event BytesN32)}

theorem trans (h : Registers events s s₁) (h' : Registers events' s₁ s') :
    Registers (events ++ events') s s' := by
  intro hs
  obtain ⟨hs₁, hmoves⟩ := h hs
  obtain ⟨hs', hmoves'⟩ := h' hs₁
  exact ⟨hs', hmoves.append hmoves'⟩

/-- What leaves the intents alone leaves the book alone. -/
theorem of_same (hi : s'.intent = s.intent) (hc : s'.cancelled = s.cancelled)
    (hn : s'.submissionSequence = s.submissionSequence)
    (hl : s'.nextSubmissionSequence = s.nextSubmissionSequence) : Registers [] s s' := by
  intro hs
  have hbook : book s' = book s := by
    unfold book labelOf
    rw [hi, hc, hn, hl]
  refine ⟨fun i h => ?_, hbook ▸ Moves.nil⟩
  rw [hn]
  exact hs i (hi ▸ h)

theorem refl (s : IntentRegistryStorage) : Registers [] s s := of_same rfl rfl rfl rfl

end Registers

/-- The call asks the running registry for the events, and leaves the other registries alone. -/
def Asks (events : List (Event BytesN32)) (env : Env) (c c' : Chain H) : Prop :=
  ∀ r, Registers (if env.current = r then events else []) (c.storage .intentRegistry r)
    (c'.storage .intentRegistry r)

theorem Registers.asks {events : List (Event BytesN32)}
    {f : IntentRegistryStorage → IntentRegistryStorage}
    (h : Registers events (c.storage .intentRegistry env.current)
      (f (c.storage .intentRegistry env.current))) :
    Asks events env c (c.modify .intentRegistry env.current f) := by
  intro r
  by_cases hr : env.current = r
  · subst hr
    rw [if_pos rfl, Chain.storage_modify_self]
    exact h
  · rw [if_neg hr, Chain.storage_modify_of_address (Ne.symm hr)]
    exact Registers.refl _

theorem Asks.refl (env : Env) (c : Chain H) : Asks [] env c c := by
  intro r
  rw [ite_self]
  exact Registers.refl _

theorem Asks.trans {events events' : List (Event BytesN32)} {c₁ : Chain H}
    (h : Asks events env c c₁) (h' : Asks events' env c₁ c') :
    Asks (events ++ events') env c c' := by
  intro r
  have := (h r).trans (h' r)
  by_cases hr : env.current = r
  · rw [if_pos hr, if_pos hr] at this
    rwa [if_pos hr]
  · rw [if_neg hr, if_neg hr] at this
    rwa [if_neg hr]

/-! ## The calls of the registry -/

/-- A registry with a new intent: nobody else's label changes. -/
theorem labelOf_update {s s' : IntentRegistryStorage} {i : BytesN32} {m : IntentMeta} {n : ℕ}
    (hi : s'.intent = Function.update s.intent i (some m))
    (hn : s'.submissionSequence = Function.update s.submissionSequence i (some n)) :
    labelOf s' = Function.update (labelOf s) i (some (n, m.batchId, m.marketId)) := by
  funext k
  unfold labelOf
  rw [hi, hn]
  by_cases hk : k = i
  · subst hk
    simp only [Function.update_self, Option.bind_some, Option.map_some]
  · simp only [Function.update_of_ne hk]

theorem moves_update {s s' : IntentRegistryStorage} {i : BytesN32} {m : IntentMeta} {n : ℕ}
    (hi : s'.intent = Function.update s.intent i (some m))
    (hn : s'.submissionSequence = Function.update s.submissionSequence i (some n))
    {b : Book BytesN32 (BytesN32 × BytesN32)} {events : List (Event BytesN32)}
    (h : Moves b events ⟨Function.update (labelOf s) i (some (n, m.batchId, m.marketId)),
      s'.cancelled, s'.nextSubmissionSequence.getD 0⟩) : Moves b events (book s') := by
  unfold book
  rw [labelOf_update hi hn]
  exact h

theorem numbered_update {s s' : IntentRegistryStorage} (hs : Numbered s) {i : BytesN32}
    {m : IntentMeta} {n : ℕ} (hi : s'.intent = Function.update s.intent i (some m))
    (hn : s'.submissionSequence = Function.update s.submissionSequence i (some n)) :
    Numbered s' := by
  intro k hk
  rw [hi] at hk
  rw [hn]
  by_cases hki : k = i
  · rw [hki, Function.update_self]
    rfl
  · rw [Function.update_of_ne hki] at hk ⊢
    exact hs k hk

theorem submit_registers {batch market intent payload : BytesN32} {u : Unit}
    (h : Returns (submit batch market intent payload) env c u c') :
    Asks [.submit intent] env c c' := by
  unfold submit at h
  simp only [returns_bind, returns_load, returns_failIf, returns_modifyStorage,
    exists_eq_left, exists_and_left, and_assoc, exists_const] at h
  obtain ⟨_, c₁, hoperator, hnew, -, hset⟩ := h
  obtain rfl := ReadOnly.eq hoperator
  subst hset
  rw [Option.not_isSome_iff_eq_none] at hnew
  refine Registers.asks fun hs => ⟨numbered_update hs rfl rfl, ?_⟩
  exact moves_update rfl rfl (Move.submit (batch, market) (labelOf_eq_none hnew)).moves

theorem markCancelled_registers {intent : BytesN32} {u : Unit}
    (h : Returns (markCancelled intent) env c u c') :
    Asks [.finish intent] env c c' := by
  unfold markCancelled at h
  simp only [returns_bind, returns_load, returns_failIf, returns_modifyStorage,
    exists_eq_left, exists_and_left, and_assoc, exists_const] at h
  obtain ⟨hknown, hactive, hset⟩ := h
  subst hset
  refine Registers.asks fun hs => ⟨hs, (Move.finish ((active_iff hs).mpr ⟨?_, hactive⟩)).moves⟩
  rwa [Bool.not_eq_true, Option.isNone_eq_false_iff] at hknown

theorem rollover_registers {settler : Address} {source residual payload : BytesN32} {u : Unit}
    (h : Returns (rollover settler source residual payload) env c u c') :
    Asks [.replace source residual] env c c' := by
  unfold rollover at h
  simp only [returns_bind, returns_load, returns_failIf, returns_stored, returns_modifyStorage,
    exists_eq_left, exists_and_left, and_assoc, exists_const] at h
  obtain ⟨_, c₁, hsettler, hsource, hnew, m, hm, n, hn, hset⟩ := h
  obtain rfl := ReadOnly.eq hsettler
  subst hset
  rw [Option.not_isSome_iff_eq_none] at hnew
  refine Registers.asks fun hs => ⟨numbered_update hs rfl rfl, ?_⟩
  have hactive : IsActive (c₁.storage .intentRegistry env.current) source := by
    simpa [IsActive] using fun h => hsource (Or.inr h)
  have hmove := (Move.replace ((active_iff hs).mpr hactive) (labelOf_eq_none hnew)).moves
  have hlabel : (book (c₁.storage .intentRegistry env.current)).label source =
      some (n, m.batchId, m.marketId) := by
    show labelOf _ source = _
    rw [labelOf, hm, hn]
    rfl
  rw [hlabel] at hmove
  exact moves_update (m := { m with matchingPayloadCommitment := payload }) rfl rfl hmove

/-! ## The calls of a settlement -/

/-- What a settlement asks of the registry for one of its intents. -/
def itemEvent (item : BatchSettlement.ResidualItem) : Event BytesN32 :=
  if item.residual = 0 then .finish item.intent else .replace item.intent item.residual

/-- The items of a settlement. -/
def settledItems (args : SettleArgs) : List BatchSettlement.ResidualItem :=
  BatchSettlement.residualItems args.filledIntents args.residualCommitments args.residualMargins
    args.residualPayloadCommitments

theorem consume_registers {settler : Address} {intent : BytesN32} {u : Unit}
    (h : Returns (consume settler intent) env c u c') :
    Asks [.finish intent] env c c' := by
  unfold consume at h
  obtain ⟨_, c₁, hsettler, hmark⟩ := returns_bind.mp h
  obtain rfl := ReadOnly.eq hsettler
  exact markCancelled_registers hmark

instance : Fact (Kind.intentRegistry ≠ .batchSettlement) := ⟨by decide⟩

instance : Fact (Kind.intentRegistry ≠ .shieldedPool) := ⟨by decide⟩

instance : Fact (Kind.intentRegistry ≠ .positionState) := ⟨by decide⟩

theorem consumeFilledIntent_registers {registry : Address} {item : BatchSettlement.ResidualItem}
    {u : Unit} (h : Returns (BatchSettlement.consumeFilledIntent registry item) env c u c') :
    Asks [itemEvent item] (env.invoke registry) c c' := by
  unfold BatchSettlement.consumeFilledIntent at h
  obtain ⟨_, c₁, hclear, h⟩ := returns_bind.mp h
  have hsame : Chain.SameAt .intentRegistry c c₁ := Respects.rel hclear
  unfold Asks
  rw [← show c₁.storage .intentRegistry = c.storage .intentRegistry from hsame]
  unfold itemEvent
  simp only [returns_bind, returns_currentContract, exists_eq_left, exists_and_left, and_assoc] at h
  by_cases hzero : item.residual = 0
  · rw [if_pos hzero] at h ⊢
    simp only [returns_bind, returns_failIf, returns_call, exists_and_left, and_assoc,
      exists_eq_left, exists_const] at h
    exact consume_registers h.2
  · rw [if_neg hzero] at h ⊢
    simp only [returns_bind, returns_failIf, returns_call, returns_validateHash,
      returns_modifyStorage, exists_and_left, and_assoc, exists_eq_left, exists_const] at h
    intro r
    have hrollover := rollover_registers h.2.2.2.2 r
    rw [Chain.storage_modify_of_kind (by decide)] at hrollover
    exact hrollover

theorem consumeFilledIntents_registers {registry : Address} {env : Env} {c c' : Chain H} {u : Unit}
    {items : List BatchSettlement.ResidualItem}
    (h : Returns (forEach (BatchSettlement.consumeFilledIntent registry) items) env c u c') :
    Asks (items.map itemEvent) (env.invoke registry) c c' := by
  induction items generalizing c with
  | nil =>
    rw [returns_forEach_nil.mp h]
    exact Asks.refl _ _
  | cons item items ih =>
    obtain ⟨c₁, hitem, hitems⟩ := returns_forEach_cons.mp h
    exact (consumeFilledIntent_registers hitem).trans (ih hitems)

instance : Fact (Kind.batchSettlement ≠ .shieldedPool) := ⟨by decide⟩

instance : Fact (Kind.batchSettlement ≠ .positionState) := ⟨by decide⟩

/-- The storages agree in the margins of residuals and in the configuration. -/
structure SameMargins (s s' : BatchSettlementStorage) : Prop where
  residualMargin : s'.residualMargin = s.residualMargin
  claimedResidual : s'.claimedResidual = s.claimedResidual
  intentRegistry : s'.intentRegistry = s.intentRegistry
  governance : s'.governance = s.governance

theorem SameMargins.refl (s : BatchSettlementStorage) : SameMargins s s := ⟨rfl, rfl, rfl, rfl⟩

/-- A settlement ends its intents in the registry that it is configured with, and does nothing else
to registries and to the margins of residuals. -/
theorem settle_consumes {args : SettleArgs} {u : Unit}
    (h : Returns (BatchSettlement.settle args) env c u c') :
    ∃ (registry : Address) (c₁ c₂ : Chain H),
      (c.storage .batchSettlement env.current).intentRegistry = some registry ∧
      c₁.storage .intentRegistry = c.storage .intentRegistry ∧
      c₁.storage .batchSettlement = c.storage .batchSettlement ∧
      Returns (forEach (BatchSettlement.consumeFilledIntent registry) (settledItems args)) env
        c₁ () c₂ ∧
      c'.storage .intentRegistry = c₂.storage .intentRegistry ∧
      ∀ a, SameMargins (c₂.storage .batchSettlement a) (c'.storage .batchSettlement a) := by
  unfold BatchSettlement.settle at h
  simp only [returns_bind] at h
  obtain ⟨_, _, hargs, _, _, hproof, _, _, hinputs, _, _, hload, _, _, hsettled, _, _, hactive, _, _,
    hpriority, _, c₁, hspend, _, c₂, hchange, _, c₃, hconsume, oracle, c₄, hprice, receipt, c₅,
    happend, _, c₆, haccrue, hset⟩ := h
  obtain rfl := ReadOnly.eq hargs
  obtain rfl := ReadOnly.eq hproof
  obtain rfl := ReadOnly.eq hinputs
  obtain rfl := ReadOnly.eq hload
  obtain rfl := ReadOnly.eq hsettled
  obtain rfl := ReadOnly.eq hactive
  obtain rfl := ReadOnly.eq hpriority
  unfold BatchSettlement.consumeFilledIntents at hconsume
  simp only [returns_bind, returns_stored, exists_eq_left, exists_and_left, and_assoc] at hconsume
  obtain ⟨registry, hregistry, hloop⟩ := hconsume
  -- the loops before and after the intents leave both kinds of contracts alone
  have hbefore (k : Kind) [Fact (k ≠ .shieldedPool)] : c₂.storage k = _ :=
    trans_of (Chain.SameAt k) (Respects.rel hspend) (Respects.rel hchange)
  have hafter (k : Kind) [Fact (k ≠ .shieldedPool)] [Fact (k ≠ .positionState)] :
      c₆.storage k = c₃.storage k :=
    trans_of (Chain.SameAt k) (Respects.rel hprice)
      (trans_of (Chain.SameAt k) (Respects.rel happend) (Respects.rel haccrue))
  rw [hbefore .batchSettlement] at hregistry
  refine ⟨registry, c₂, c₃, hregistry, hbefore _, hbefore _, hloop, ?_, fun a => ?_⟩
  · rw [returns_modifyStorage.mp hset, ← hafter .intentRegistry]
    funext a
    exact Chain.storage_modify_of_kind (by decide)
  · rw [returns_modifyStorage.mp hset, ← hafter .batchSettlement]
    by_cases ha : a = env.current
    · rw [ha, Chain.storage_modify_self]
      exact ⟨rfl, rfl, rfl, rfl⟩
    · rw [Chain.storage_modify_of_address ha]
      exact SameMargins.refl _

/-! ## Runs -/

/-- What a call that the contract `target` accepts on the ledger `c` asks of the registry `r`. -/
def callEvents (r : Address) (c : Chain H) (target : Address) : Call → List (Event BytesN32)
  | .registrySubmit _ _ intent _ => if target = r then [.submit intent] else []
  | .registryCancel intent | .registryConsume _ intent => if target = r then [.finish intent] else []
  | .registryRollover _ source residual _ =>
    if target = r then [.replace source residual] else []
  | .batchSettle args =>
    if (c.storage .batchSettlement target).intentRegistry = some r then
      (settledItems args).map itemEvent
    else []
  | _ => []

/-- What an accepted step asks of the registry `r`. -/
def registryEvents (r : Address) (x : Step (Chain H) (Action H)) : List (Event BytesN32) :=
  match x.act with
  | .invoke tx => callEvents r x.pre tx.target tx.call
  | .external _ => []

theorem settle_registers {args : SettleArgs} {u : Unit} (r : Address)
    (h : Returns (BatchSettlement.settle args) env c u c') :
    Registers (callEvents r c env.current (.batchSettle args)) (c.storage .intentRegistry r)
      (c'.storage .intentRegistry r) := by
  obtain ⟨registry, c₁, c₂, hregistry, hbefore, -, hloop, hafter, -⟩ := settle_consumes h
  have hasks := consumeFilledIntents_registers hloop r
  rw [hbefore, ← hafter, Env.current_invoke] at hasks
  show Registers (if (c.storage .batchSettlement env.current).intentRegistry = some r then _ else _)
    _ _
  rw [hregistry]
  by_cases hr : registry = r
  · rw [if_pos hr] at hasks
    rwa [if_pos (congrArg some hr)]
  · rw [if_neg hr] at hasks
    rwa [if_neg fun h => hr (Option.some.inj h)]

/-- A call of a registry that leaves its intents alone. -/
theorem Registers.of_modify {f : IntentRegistryStorage → IntentRegistryStorage}
    (hf : ∀ s, (f s).intent = s.intent ∧ (f s).cancelled = s.cancelled ∧
      (f s).submissionSequence = s.submissionSequence ∧
      (f s).nextSubmissionSequence = s.nextSubmissionSequence) (r : Address) :
    Registers [] (c.storage .intentRegistry r)
      ((c.modify .intentRegistry env.current f).storage .intentRegistry r) := by
  have hasks : Asks [] env c (c.modify .intentRegistry env.current f) :=
    Registers.asks (Registers.of_same (hf _).1 (hf _).2.1 (hf _).2.2.1 (hf _).2.2.2)
  have h := hasks r
  rwa [ite_self] at h

theorem Registers.of_sameAt {call : Call} {u : Unit} (r : Address)
    (hcall : Respects (Chain.SameAt .intentRegistry) (call.run : Contract H Unit))
    (h : Returns call.run env c u c') :
    Registers [] (c.storage .intentRegistry r) (c'.storage .intentRegistry r) := by
  have hsame : Chain.SameAt .intentRegistry c c' := hcall.rel h
  rw [show c'.storage .intentRegistry = c.storage .intentRegistry from hsame]
  exact Registers.refl _

theorem run_registers {call : Call} {u : Unit} (r : Address) (h : Returns call.run env c u c') :
    Registers (callEvents r c env.current call) (c.storage .intentRegistry r)
      (c'.storage .intentRegistry r) := by
  by_cases htouches : Kind.intentRegistry ∈ call.touches
  · cases call
    case registrySubmit => exact submit_registers h r
    case registryCancel intent =>
      obtain ⟨_, c₁, hoperator, hmark⟩ := returns_bind.mp h
      obtain rfl := ReadOnly.eq hoperator
      exact markCancelled_registers hmark r
    case registryConsume => exact consume_registers h r
    case registryRollover => exact rollover_registers h r
    case registryInit =>
      dsimp only [Call.run, init] at h
      simp only [returns_bind, returns_requireAuth, returns_load, returns_failIf,
        returns_modifyStorage, exists_eq_left, exists_and_left, and_assoc, exists_const] at h
      rw [h.2.2]
      refine Registers.of_modify ?_ r
      exact fun _ => ⟨rfl, rfl, rfl, rfl⟩
    case registrySetUpgradeAuthority =>
      dsimp only [Call.run, setUpgradeAuthority] at h
      simp only [returns_bind, returns_load, returns_failIf, returns_stored, returns_modifyStorage,
        exists_eq_left, exists_and_left, and_assoc, exists_const] at h
      obtain ⟨_, c₁, hoperator, -, -, -, -, rfl⟩ := h
      obtain rfl := ReadOnly.eq hoperator
      refine Registers.of_modify ?_ r
      exact fun _ => ⟨rfl, rfl, rfl, rfl⟩
    case registryRotateUpgradeAuthority =>
      dsimp only [Call.run, rotateUpgradeAuthority] at h
      simp only [returns_bind, returns_requireAuth, returns_failIf, returns_stored,
        returns_modifyStorage, exists_eq_left, exists_and_left, and_assoc, exists_const] at h
      obtain ⟨-, -, -, -, -, -, rfl⟩ := h
      refine Registers.of_modify ?_ r
      exact fun _ => ⟨rfl, rfl, rfl, rfl⟩
    case batchSettle args => exact settle_registers r h
    case batchInit => exact Registers.of_sameAt r sameAt_batchInit h
    case batchConfigureFeeToken => exact Registers.of_sameAt r sameAt_configureFeeToken h
    case batchClaimResidual => exact Registers.of_sameAt r sameAt_claimResidual h
    all_goals simp [Call.touches] at htouches
  · have hnone : callEvents r c env.current call = [] := by
      cases call <;> first | rfl | exact absurd (by simp [Call.touches]) htouches
    rw [hnone]
    exact Registers.of_sameAt r (sameAt_run htouches) h

theorem step_registers {r : Address} {x : Step (Chain H) (Action H)}
    (h : step x.pre x.act = .ok x.post) :
    Registers (registryEvents r x) (x.pre.storage .intentRegistry r)
      (x.post.storage .intentRegistry r) := by
  obtain ⟨c, a, c'⟩ := x
  cases a with
  | external state =>
    have hpost : c' = { c with external := state } := (Except.ok.inj h).symm
    subst hpost
    exact Registers.refl _
  | invoke tx => exact run_registers r (step_invoke_eq_ok.mp h)

/-- **The run lemma.** The book of a registry is sound for everything that a run asks of it. -/
theorem run_sound (e : H.State) (as : List (Action H)) (r : Address) :
    Numbered ((final step (Chain.blank e) as).storage .intentRegistry r) ∧
      Sound (book ((final step (Chain.blank e) as).storage .intentRegistry r))
        ((accepted step (Chain.blank e) as).flatMap (registryEvents r)) := by
  let sound : Chain H → List (Event BytesN32) → Prop := fun c events =>
    Numbered (c.storage .intentRegistry r) ∧ Sound (book (c.storage .intentRegistry r)) events
  have hstart : sound (Chain.blank e) [] :=
    ⟨fun i h => absurd h Bool.false_ne_true, sound_empty 0⟩
  refine @final_of_log _ _ _ _ _ (registryEvents r) (fun _ => True) sound ?_ _ as _ hstart
    fun _ _ => trivial
  rintro x - hx events ⟨hnumbered, hsound⟩
  obtain ⟨hnumbered', hmoves⟩ := step_registers hx hnumbered
  exact ⟨hnumbered', hsound.moves hmoves⟩

/-- **The life of an intent.** In every run of the system, for every registry: at most one of the
intents that descend from an intent is active, active intents have distinct submission sequences,
an intent that was cancelled, consumed or rolled over is not active, and a residual has the batch,
market and submission sequence of the intent that it replaces. -/
theorem intents_lifecycle (e : H.State) (as : List (Action H)) (r : Address) :
    let s := (final step (Chain.blank e) as).storage .intentRegistry r
    let events := (accepted step (Chain.blank e) as).flatMap (registryEvents r)
    (∀ i, Event.submit i ∈ events → ∀ j k, Descends events i j → Descends events i k →
      IsActive s j → IsActive s k → j = k) ∧
    (∀ i j n, IsActive s i → IsActive s j → s.submissionSequence i = some n →
      s.submissionSequence j = some n → i = j) ∧
    (∀ i, Event.finish i ∈ events → ¬ IsActive s i) ∧
    ∀ i j, Event.replace i j ∈ events → ¬ IsActive s i ∧ ∃ m m' n, s.intent i = some m ∧
      s.intent j = some m' ∧ m'.batchId = m.batchId ∧ m'.marketId = m.marketId ∧
      s.submissionSequence i = some n ∧ s.submissionSequence j = some n := by
  intro s events
  obtain ⟨hnumbered, hsound⟩ := run_sound e as r
  refine ⟨fun i _ j k hj hk hactive hactive' => ?_, fun i j n hi hj hni hnj => ?_,
    fun i hi hactive => ?_, fun i j hij => ⟨fun hactive => ?_, ?_⟩⟩
  · exact hsound.descendant_unique hj hk ((active_iff hnumbered).mpr hactive)
      ((active_iff hnumbered).mpr hactive')
  · obtain ⟨m, hm⟩ := Option.isSome_iff_exists.mp hi.1
    obtain ⟨m', hm'⟩ := Option.isSome_iff_exists.mp hj.1
    have hlabel (k : BytesN32) (m : IntentMeta) (hm : s.intent k = some m)
        (hn : s.submissionSequence k = some n) :
        (book s).label k = some (n, m.batchId, m.marketId) := by
      show labelOf s k = _
      rw [labelOf, hm, hn]
      rfl
    exact hsound.unique i j _ _ ((active_iff hnumbered).mpr hi) ((active_iff hnumbered).mpr hj)
      (hlabel i m hm hni) (hlabel j m' hm' hnj) rfl
  · exact hactive.2 (hsound.finished i hi)
  · exact hactive.2 (hsound.replaced i j hij).1
  · obtain ⟨-, hlabel, hsome⟩ := hsound.replaced i j hij
    obtain ⟨x, hx⟩ := Option.isSome_iff_exists.mp hsome
    have hread (k : BytesN32) (hk : labelOf s k = some x) : ∃ m n, s.intent k = some m ∧
        s.submissionSequence k = some n ∧ x = (n, m.batchId, m.marketId) := by
      obtain ⟨m, hm, hk⟩ := Option.bind_eq_some_iff.mp hk
      obtain ⟨n, hn, hk⟩ := Option.map_eq_some_iff.mp hk
      exact ⟨m, n, hm, hn, hk.symm⟩
    obtain ⟨m, n, hm, hn, hxi⟩ := hread i hx
    obtain ⟨m', n', hm', hn', hxj⟩ := hread j (hlabel.trans hx)
    rw [hxi] at hxj
    obtain ⟨rfl, hdata⟩ := Prod.mk.inj hxj
    obtain ⟨hbatch, hmarket⟩ := Prod.mk.inj hdata
    exact ⟨m, m', n, hm, hm', hbatch.symm, hmarket.symm, hn, hn'⟩

/-- An intent is submitted and rolled over, which fails a second time, and its residual is
cancelled. -/
example : (accepted step (Chain.blank (H := sampleHost) ⟨[], []⟩)
    ([.registryInit (.account 100) (.account 101), .registrySubmit 1 2 5 0,
      .registryRollover (.account 101) 5 6 0, .registryRollover (.account 101) 5 7 0,
      .registryCancel 6].map fun call =>
        .invoke ⟨[.account 100, .account 101], 0, .contract 4, call⟩)).flatMap
      (registryEvents (.contract 4)) = [.submit 5, .replace 5 6, .finish 6] := by
  decide +kernel

end Pnlx.IntentRegistry
