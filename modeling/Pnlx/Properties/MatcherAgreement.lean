import Pnlx.Properties.PublicInputs
import Pnlx.Properties.ResidualMargins
import Pnlx.Server.Drafts

/-!
# The two matchers agree

The server matches a batch and asks the guest program to prove it.

1. `request_parsed`: what the guest program reads of a request that it matches.
2. `draft_readable`: the settlement of a result has a journal.
3. `matchers_agree_iff`: the guest program proves the result of the server exactly when the integers
   of the request fit its words.
-/

namespace Pnlx.Server

open BatchMatch (Text Side parseU128 parseI128)

variable {H : Host} {input : MatchInput} {book : Book} {orders : List BookOrder} {result : MatchResult}
  {draft : BatchSettlement}

/-! ## The condition -/

/-- The total size of the long intents. -/
def longTotal (intents : List PrivateMatchIntent) : ℤ :=
  ((intents.filter (0 ≤ ·.signedSize)).map (·.signedSize)).sum

/-- The total size of the short intents. -/
def shortTotal (intents : List PrivateMatchIntent) : ℤ :=
  ((intents.filter (·.signedSize < 0)).map (-·.signedSize)).sum

/-- The integers of a request fit the words of the guest program. -/
structure RequestFits (input : MatchInput) : Prop where
  market : MarketFits input.market
  orders : ∀ intent ∈ input.intents, OrderFits intent
  longs : longTotal input.intents < 2 ^ 128
  shorts : shortTotal input.intents < 2 ^ 128
  distance : abs (longTotal input.intents - shortTotal input.intents) ≤ 2 ^ 127

/-- The guest program proves the result of the server. -/
def Accepted (H : Host) (input : MatchInput) (result : MatchResult) (draft : BatchSettlement) : Prop :=
  ∃ output proved,
    BatchMatch.matchBatch H .release (proverMarket input.market) (input.intents.map proverIntent) =
      some output ∧
    decodeOutput input.batchId output = result ∧
    BatchMatch.proveRequest H (toProverInput (input.settled result) draft) = some proved

/-! ## The totals -/

theorem sideSize_eq_sum (orders : List BookOrder) (side : Side) :
    sideSize orders side = ((orders.filter (·.side = side)).map (·.size)).sum := by
  unfold sideSize
  rw [List.sum_eq_foldl]

theorem totals_eq (h : List.Forall₂ OrderOf input.intents orders) :
    sideSize orders .long = longTotal input.intents ∧
      sideSize orders .short = shortTotal input.intents := by
  rw [sideSize_eq_sum, sideSize_eq_sum]
  unfold longTotal shortTotal
  generalize input.intents = intents at h
  induction h with
  | nil => exact ⟨rfl, rfl⟩
  | @cons intent order intents orders hof _ ih =>
    obtain ⟨ihLong, ihShort⟩ := ih
    have hside := hof.side
    have hsize := hof.size
    by_cases hlong : 0 ≤ intent.signedSize
    · rw [if_pos hlong] at hside hsize
      have hshort : ¬ intent.signedSize < 0 := Int.not_lt.mpr hlong
      simp [hside, hsize, hlong, hshort, ihLong, ihShort]
    · rw [if_neg hlong] at hside hsize
      have hshort : intent.signedSize < 0 := Int.not_le.mp hlong
      simp [hside, hsize, hlong, hshort, ihLong, ihShort]

/-! ## What the guest program reads -/

theorem parseU128_word {z : ℤ} {v : U128} (h : parseU128 (BatchMatch.decimalSigned z) = some v) :
    0 ≤ z ∧ z < 2 ^ 128 := by
  have hz := BatchMatch.parseU128_decimalSigned.mp h
  have hlt := v.isLt
  omega

/-- A request that the guest program matches has been read. -/
theorem request_parsed {output : BatchMatch.MatchOutput}
    (h : BatchMatch.matchBatch H .release (proverMarket input.market)
      (input.intents.map proverIntent) = some output) :
    MarketFits input.market ∧ ∀ intent ∈ input.intents, OrderFits intent := by
  obtain ⟨orders, book, filled, hmatched⟩ := BatchMatch.matchBatch_eq_some.mp h
  constructor
  · obtain ⟨trades, htrading⟩ := BatchMatch.matchLoop_trading hmatched.admitted hmatched.loop
    obtain ⟨trade, ht⟩ : ∃ trade, trade ∈ trades := by
      refine List.exists_mem_of_ne_nil trades ?_
      rintro rfl
      exact hmatched.fills_ne htrading.fills
    obtain ⟨l, -, s, -, -, -, htrade⟩ := htrading.traded trade ht
    obtain ⟨rate, leverage, hrate, -, hleverage, -⟩ :=
      BatchMatch.assertFill_eq_some.mp htrade.longFill.checked
    obtain ⟨fillIndex, hdescribed⟩ := htrade.longFill.described
    unfold BatchMatch.describeFill at hdescribed
    obtain ⟨index, hindex, -⟩ := Option.bind_eq_some_iff.mp hdescribed
    exact ⟨parseU128_word hindex, parseU128_word hrate, parseU128_word hleverage⟩
  · intro intent hmem
    have hintents := (BatchMatch.toBookOrders_map hmatched.request).1
    obtain ⟨order, horder, hsource⟩ : ∃ order ∈ orders, order.intent = proverIntent intent := by
      rw [← List.mem_map, hintents]
      exact List.mem_map_of_mem hmem
    have hof := BatchMatch.toBookOrders_orderOf hmatched.request order horder
    rw [hsource] at hof
    obtain ⟨size, hsize, -⟩ := hof.signedSize
    have hsize := (BatchMatch.parseI128_decimalSigned _).symm.trans hsize
    refine ⟨?_, (parseU128_word hof.limitPrice).2, (parseU128_word hof.margin).2⟩
    unfold I128.ofInt? at hsize
    split_ifs at hsize with hfits
    exact hfits

/-! ## The settlement -/

section Draft

theorem hashFields_isHex32 (domain : String) (fields : List Value) :
    IsHex32 (hashFields H domain fields) := (isHex32_hexText _).1

theorem zero_isHex32 : IsHex32 "0x0".toList := Or.inl rfl

/-- The settlement of a result has a journal. -/
theorem draft_readable (hactive : ActiveOrders input)
    (hof : List.Forall₂ OrderOf input.intents orders) (htraced : book.Traced input.intents)
    {output : BatchMatch.MatchOutput}
    (hresult : ResultOf H input book orders (decodeOutput input.batchId output))
    (h : prepareRisc0SettlementDraft H (input.settled (decodeOutput input.batchId output)) =
      some draft) : draft.Readable := by
  have hintent {order : BookOrder} (hmem : order ∈ orders) :
      IsHex32 order.intent.intentCommitment ∧ IsHex32 order.intent.noteNullifier ∧
        IsHex32 order.intent.noteChangeCommitment := by
    refine hactive.hashes _ ?_
    rw [← orders_intents hof]
    exact List.mem_map_of_mem hmem
  have hcommitment {c : Text} (hmem : c ∈ input.intents.map (·.intentCommitment)) : IsHex32 c := by
    obtain ⟨intent, hintent, rfl⟩ := List.mem_map.mp hmem
    exact (hactive.hashes intent hintent).1
  unfold prepareRisc0SettlementDraft MatchInput.settled at h
  simp only [Option.bind_eq_bind, Option.bind_eq_some_iff, Option.some.injEq] at h
  obtain ⟨_, -, payloads, hpayloads, residualPayloads, hresidualPayloads, rfl⟩ := h
  have hupdates := hresult.updates
  have hexecutions := hresult.executions
  constructor
  · simp only [BatchSettlement.hashLists, List.mem_cons, List.not_mem_nil, or_false,
      forall_eq_or_imp, forall_eq]
    refine ⟨?_, ?_, ?_, ?_, ?_, ?_, ?_, ?_, ?_, ?_⟩
    · intro value hmem
      rw [hupdates] at hmem
      obtain ⟨update, hupdate, rfl⟩ := List.mem_map.mp hmem
      obtain ⟨order, horder, rfl⟩ := List.mem_map.mp hupdate
      exact (hintent (List.mem_of_mem_filter horder)).1
    · intro value hmem
      rw [hresult.fills] at hmem
      obtain ⟨fill, hfill, rfl⟩ := List.mem_map.mp hmem
      exact htraced.fills fill hfill
    · intro value hmem
      rw [hresult.changes] at hmem
      obtain ⟨order, horder, rfl⟩ := List.mem_map.mp hmem
      exact (hintent (List.mem_of_mem_filter horder)).2.2
    · intro value hmem
      rw [hresult.spent] at hmem
      obtain ⟨intent, hintent, rfl⟩ := List.mem_map.mp (htraced.spent value hmem)
      exact (hactive.hashes intent hintent).2.1
    · intro value hmem
      obtain ⟨update, -, hpayload⟩ := (mapM_eq_some.mp hpayloads).exists_of_mem_right hmem
      obtain ⟨intent, -, rfl⟩ := Option.map_eq_some_iff.mp hpayload
      exact hashFields_isHex32 _ _
    · intro value hmem
      rw [hupdates] at hmem
      obtain ⟨update, hupdate, rfl⟩ := List.mem_map.mp hmem
      obtain ⟨order, horder, rfl⟩ := List.mem_map.mp hupdate
      unfold createOrderUpdate
      simp only
      split_ifs
      · exact hashFields_isHex32 _ _
      · exact zero_isHex32
    · intro value hmem
      obtain ⟨update, -, hpayload⟩ :=
        (mapM_eq_some.mp hresidualPayloads).exists_of_mem_right hmem
      rw [residualPayload_eq_some hpayload]
      cases residualBySource _ update.intentCommitment with
      | none => exact zero_isHex32
      | some residual => exact hashFields_isHex32 _ _
    · intro value hmem
      rw [hexecutions] at hmem
      obtain ⟨execution, hexecution, rfl⟩ := List.mem_map.mp hmem
      exact hcommitment (htraced.executions execution hexecution).1
    · intro value hmem
      rw [hexecutions] at hmem
      obtain ⟨execution, hexecution, rfl⟩ := List.mem_map.mp hmem
      exact hcommitment (htraced.executions execution hexecution).2
    · exact ⟨hashFields_isHex32 _ _, (isHex32_hexText _).1⟩
  · have hword (v : U128) : 0 ≤ (v.toNat : ℤ) ∧ (v.toNat : ℤ) < 2 ^ 128 := by
      have := v.isLt
      omega
    simp only [BatchSettlement.amounts, List.cons_append, List.nil_append, List.mem_cons,
      forall_eq_or_imp, List.forall_mem_map]
    refine ⟨hword _, hword _, hword _, hword _, hword _, hword _, fun update _ => ?_⟩
    cases hfind : residualBySource (decodeOutput input.batchId output).residuals
        update.intentCommitment with
    | none => exact hword 0
    | some residual =>
      obtain ⟨r, -, rfl⟩ := List.mem_map.mp (List.mem_reverse.mp (List.mem_of_find?_eq_some hfind))
      exact hword _

end Draft

/-! ## The agreement -/

/-- What holds of a match of the server. -/
structure MatchOf (H : Host) (input : MatchInput) (book : Book) (orders : List BookOrder)
    (result : MatchResult) : Prop where
  run : matchOrders H H.poseidon2Hash productBound input = some (book, orders)
  kept : ∀ order ∈ orders, Kept order
  traced : book.Traced input.intents
  orderOf : List.Forall₂ OrderOf input.intents orders
  small : book.Small
  result : ResultOf H input book orders result

theorem matchBatch_eq_some (h : matchBatch H H.poseidon2Hash productBound input = some result) :
    ∃ book orders, MatchOf H input book orders result := by
  unfold matchBatch at h
  obtain ⟨⟨book, orders⟩, hrun, hresult⟩ := Option.bind_eq_some_iff.mp h
  obtain ⟨htraced, hof⟩ := matchOrders_traced hrun
  exact ⟨book, orders, hrun, matchOrders_kept hrun, htraced, hof, matchOrders_small hrun,
    createResult_eq_some hresult⟩

theorem MatchOf.intent_pos (h : MatchOf H input book orders result) :
    ∀ intent ∈ input.intents, 0 ≤ intent.limitPrice ∧ 0 ≤ intent.margin := by
  intro intent hmem
  rw [← orders_intents h.orderOf] at hmem
  obtain ⟨order, horder, rfl⟩ := List.mem_map.mp hmem
  exact ⟨(h.kept order horder).limitPrice_pos.le, (h.kept order horder).margin_pos.le⟩

/-- The output of the guest program is the result exactly when the totals fit. -/
theorem MatchOf.output_iff (h : MatchOf H input book orders result) (hactive : ActiveOrders input)
    (hfills : result.fills.length ≤ maxPublicItems)
    (hexecutions : result.executions.length ≤ maxPublicItems) (hmarket : MarketFits input.market)
    (hfits : ∀ intent ∈ input.intents, OrderFits intent) :
    (∃ output, BatchMatch.matchBatch H .release (proverMarket input.market)
        (input.intents.map proverIntent) = some output ∧
      decodeOutput input.batchId output = result) ↔ TotalsFit result := by
  obtain ⟨book', orders', hrun, hbook, hsame⟩ := matchOrders_follow hmarket hfits h.run
  have hrelease := BatchMatch.matchOrders_agrees _ _ _ hrun
  have hmatch : BatchMatch.matchBatch H .release (proverMarket input.market)
      (input.intents.map proverIntent) =
        BatchMatch.createOutput H .release (proverMarket input.market) book' orders' := by
    unfold BatchMatch.matchBatch
    rw [hrelease]
    rfl
  have htrading : ∃ start trades,
      BatchMatch.Trading H .exact (proverMarket input.market) start book' trades := by
    unfold BatchMatch.matchOrders at hrun
    simp only [Option.bind_eq_bind, Option.bind_eq_some_iff, assert_eq_some, Option.some.injEq,
      Prod.mk.injEq] at hrun
    obtain ⟨start, hstart, _, hnodup, _, hloop, -, -, rfl, -⟩ := hrun
    have hadmitted := BatchMatch.toBookOrders_admitted hstart hnodup
    obtain ⟨trades, htrading⟩ := BatchMatch.matchLoop_trading hadmitted hloop
    exact ⟨start, trades, htrading⟩
  obtain ⟨start, trades, htrading⟩ := htrading
  rw [h.result.fills] at hfills
  rw [h.result.executions] at hexecutions
  rw [hmatch]
  refine createResult_follow hbook hsame h.kept (fun order hmem => ?_) h.small hfills hexecutions
    htrading h.result
  refine hactive.market _ ?_
  rw [← orders_intents h.orderOf]
  exact List.mem_map_of_mem hmem

theorem MatchOf.totals_iff (h : MatchOf H input book orders result) :
    TotalsFit result ↔ longTotal input.intents < 2 ^ 128 ∧ shortTotal input.intents < 2 ^ 128 ∧
      abs (longTotal input.intents - shortTotal input.intents) ≤ 2 ^ 127 := by
  obtain ⟨hlong, hshort⟩ := totals_eq h.orderOf
  rw [← hlong, ← hshort, ← h.result.longSize, ← h.result.shortSize]
  exact ⟨fun h => ⟨h.longs, h.shorts, h.distance⟩, fun ⟨h, h', h''⟩ => ⟨h, h', h''⟩⟩

/-- A settlement within the capacity has at most eight fills and eight executions. -/
theorem draft_capacity (h : prepareRisc0SettlementDraft H (input.settled result) = some draft)
    (hcapacity : assertBatchSettlementCapacity draft = some ()) :
    result.fills.length ≤ maxPublicItems ∧ result.executions.length ≤ maxPublicItems := by
  have hlength := draft.length_le hcapacity
  simp only [List.mem_cons, List.not_mem_nil, or_false, forall_eq_or_imp, forall_eq] at hlength
  obtain ⟨-, hfills, -, -, -, -, -, -, hexecutions, -⟩ := hlength
  unfold prepareRisc0SettlementDraft MatchInput.settled at h
  simp only [Option.bind_eq_bind, Option.bind_eq_some_iff, Option.some.injEq] at h
  obtain ⟨_, -, _, -, _, -, rfl⟩ := h
  rw [List.length_map] at hfills hexecutions
  exact ⟨hfills, hexecutions⟩

/-- A settlement of short lists is within the capacity. -/
theorem draft_withinCapacity (h : prepareRisc0SettlementDraft H (input.settled result) = some draft)
    (hlength : ∀ n ∈ [result.orderUpdates.length, result.fills.length,
      result.marginChangeCommitments.length, result.spentNullifiers.length,
      result.executions.length], n ≤ maxPublicItems) :
    assertBatchSettlementCapacity draft = some () := by
  simp only [List.mem_cons, List.not_mem_nil, or_false, forall_eq_or_imp, forall_eq] at hlength
  obtain ⟨hupdates, hfills, hchanges, hspent, hexecutions⟩ := hlength
  unfold prepareRisc0SettlementDraft MatchInput.settled at h
  simp only [Option.bind_eq_bind, Option.bind_eq_some_iff, Option.some.injEq] at h
  obtain ⟨_, -, payloads, hpayloads, residualPayloads, hresidualPayloads, rfl⟩ := h
  have hpayloads := length_of_mapM hpayloads
  have hresidualPayloads := length_of_mapM hresidualPayloads
  refine assert_eq_some.mpr ?_
  rintro ⟨n, hmem, hlt⟩
  simp only [List.mem_cons, List.not_mem_nil, or_false, List.length_map] at hmem
  omega

/-- The commitment of a residual is not empty. -/
theorem ResultOf.residual_ne_nil {output : BatchMatch.MatchOutput}
    (h : ResultOf H input book orders (decodeOutput input.batchId output)) :
    ∀ update ∈ output.orderUpdates, ∀ residual ∈ update.residualCommitment, residual ≠ [] := by
  intro update hmem residual hresidual
  have hmem : decodeUpdate update ∈ createOrderUpdates H orders := by
    rw [← h.updates]
    exact List.mem_map_of_mem hmem
  obtain ⟨order, -, heq⟩ := List.mem_map.mp hmem
  have hcommitment : (createOrderUpdate H order).residualCommitment = some residual := by
    rw [heq]
    exact hresidual
  unfold createOrderUpdate at hcommitment
  simp only at hcommitment
  split_ifs at hcommitment
  rw [← Option.some.inj hcommitment]
  exact hexText_ne_nil _

/-- On active orders of one market whose products are below `2^127` the server matches what it
matches without the bound, and prepares a settlement of the result. If the settlement is within the
capacity, the guest program computes the same result and accepts the settlement exactly when the
integers of the request fit its words: a negative funding index does not. -/
theorem matchers_agree_iff (H : Host) (poseidon2Hash : Fr → Fr → Fr)
    (hP : ∀ x y, poseidon2Hash x y = H.poseidon2Hash x y) (input : MatchInput) (result : MatchResult)
    (hactive : ActiveOrders input)
    (hrun : matchBatch H poseidon2Hash productBound input = some result) :
    matchBatch H poseidon2Hash none input = some result ∧
      ∃ draft, prepareRisc0SettlementDraft H (input.settled result) = some draft ∧
        (assertBatchSettlementCapacity draft = some () →
          (Accepted H input result draft ↔ RequestFits input)) := by
  refine ⟨matchBatch_agrees input _ hrun, ?_⟩
  obtain rfl : poseidon2Hash = H.poseidon2Hash := funext fun x => funext fun y => hP x y
  obtain ⟨book, orders, hmatch⟩ := matchBatch_eq_some hrun
  obtain ⟨draft, hdraft⟩ := exists_draft hmatch.orderOf hactive hmatch.result
  refine ⟨draft, hdraft, fun hcapacity => ?_⟩
  obtain ⟨hfills, hexecutions⟩ := draft_capacity hdraft hcapacity
  constructor
  · rintro ⟨output, proved, hguest, hdecode, -⟩
    obtain ⟨hmarket, hfits⟩ := request_parsed hguest
    obtain ⟨hlongs, hshorts, hdistance⟩ := hmatch.totals_iff.mp
      ((hmatch.output_iff hactive hfills hexecutions hmarket hfits).mp ⟨output, hguest, hdecode⟩)
    exact ⟨hmarket, hfits, hlongs, hshorts, hdistance⟩
  · rintro ⟨hmarket, hfits, hlongs, hshorts, hdistance⟩
    obtain ⟨output, hguest, rfl⟩ := (hmatch.output_iff hactive hfills hexecutions hmarket hfits).mpr
      (hmatch.totals_iff.mpr ⟨hlongs, hshorts, hdistance⟩)
    have hreadable := draft_readable hactive hmatch.orderOf hmatch.traced hmatch.result hdraft
    have hexpected := createDraft_follow hactive
      (fun intent hmem => ⟨hfits intent hmem, hmatch.intent_pos intent hmem⟩)
      (residuals_sources hmatch.orderOf hactive hmatch.result.residuals)
      hmatch.result.residual_ne_nil
      (by rw [← List.length_map (f := decodeFill)]; exact hfills) hdraft
    refine ⟨output, _, hguest, rfl, BatchMatch.proveRequest_eq_some.mpr
      ⟨output, (draft.args H ⟨0, 0, 0, 0, 0⟩).journal, ⟨hguest, hexpected, hreadable.journalOf,
        (draft.withinCapacity hcapacity).fits⟩, rfl⟩⟩

/-! ## Samples -/

/-- An order whose hashes have 32 bytes. -/
def hashedOrder (n : ℕ) (signedSize limitPrice margin : ℤ) : PrivateMatchIntent :=
  { sampleOrder "" signedSize limitPrice margin with
    intentCommitment := BatchMatch.hexText n
    noteNullifier := BatchMatch.hexText (100 + n)
    ownerCommitment := BatchMatch.hexText (200 + n) }

/-- A long order that is filled by one short order and a half of another. -/
def sampleBatch (fundingIndex : ℤ) : MatchInput where
  batchId := "batch-1".toList
  intents := [hashedOrder 1 3000000 100000000 600000, hashedOrder 2 (-2000000) 90000000 400000,
    hashedOrder 3 (-2000000) 100000000 400000]
  market := { sampleConfig with fundingIndex }

theorem sampleBatch_active (fundingIndex : ℤ) : ActiveOrders (sampleBatch fundingIndex) where
  market := fun intent hmem => by
    show intent.marketId = "xlm-usd-perp".toList
    revert intent
    exact (by decide +kernel : ∀ intent ∈ (sampleBatch 0).intents,
      intent.marketId = "xlm-usd-perp".toList)
  commitments := (by decide +kernel : ((sampleBatch 0).intents.map (·.intentCommitment)).Nodup)
  hashes := (by decide +kernel : ∀ intent ∈ (sampleBatch 0).intents,
    IsHex32 intent.intentCommitment ∧ IsHex32 intent.noteNullifier ∧
      IsHex32 intent.noteChangeCommitment)

/-- The server settles the batch. -/
theorem sampleBatch_settled {fundingIndex : ℤ} (h : ∃ result ∈ matchBatch sampleHost
      sampleHost.poseidon2Hash productBound (sampleBatch fundingIndex),
      ∀ n ∈ [result.orderUpdates.length, result.fills.length, result.marginChangeCommitments.length,
        result.spentNullifiers.length, result.executions.length], n ≤ maxPublicItems) :
    ∃ result draft, matchBatch sampleHost sampleHost.poseidon2Hash productBound
        (sampleBatch fundingIndex) = some result ∧
      prepareRisc0SettlementDraft sampleHost ((sampleBatch fundingIndex).settled result) =
        some draft ∧ assertBatchSettlementCapacity draft = some () := by
  obtain ⟨result, hmem, hlength⟩ := h
  have hrun := Option.mem_def.mp hmem
  obtain ⟨book, orders, hmatch⟩ := matchBatch_eq_some hrun
  obtain ⟨draft, hdraft⟩ :=
    exists_draft hmatch.orderOf (sampleBatch_active fundingIndex) hmatch.result
  exact ⟨result, draft, hrun, hdraft, draft_withinCapacity hdraft hlength⟩

/-- With a funding index of five the guest program proves the result of the server. -/
theorem matchers_agree_sample : ∃ result draft,
    matchBatch sampleHost sampleHost.poseidon2Hash none (sampleBatch 5) = some result ∧
      prepareRisc0SettlementDraft sampleHost ((sampleBatch 5).settled result) = some draft ∧
      Accepted sampleHost (sampleBatch 5) result draft := by
  obtain ⟨result, draft, hrun, hdraft, hcapacity⟩ :=
    @sampleBatch_settled 5 (by decide +kernel)
  have hfits : ∀ intent ∈ (sampleBatch 5).intents,
      (-2 ^ 127 ≤ intent.signedSize ∧ intent.signedSize < 2 ^ 127) ∧ intent.limitPrice < 2 ^ 128 ∧
        intent.margin < 2 ^ 128 := by
    decide +kernel
  have hrequest : RequestFits (sampleBatch 5) :=
    ⟨⟨by decide, by decide, by decide⟩, fun intent hmem =>
      ⟨(hfits intent hmem).1, (hfits intent hmem).2.1, (hfits intent hmem).2.2⟩,
      by decide +kernel, by decide +kernel, by decide +kernel⟩
  obtain ⟨hmatch, draft', hdraft', hiff⟩ := matchers_agree_iff sampleHost sampleHost.poseidon2Hash
    (fun _ _ => rfl) (sampleBatch 5) result (sampleBatch_active 5) hrun
  obtain rfl : draft = draft' := Option.some.inj (hdraft.symm.trans hdraft')
  exact ⟨result, draft, hmatch, hdraft, (hiff hcapacity).mpr hrequest⟩

/-- With a funding index of minus one the server settles the batch and the guest program aborts. -/
theorem exists_disagreement :
    ActiveOrders (sampleBatch (-1)) ∧
      (∃ result draft, matchBatch sampleHost sampleHost.poseidon2Hash productBound
          (sampleBatch (-1)) = some result ∧
        prepareRisc0SettlementDraft sampleHost ((sampleBatch (-1)).settled result) = some draft ∧
        assertBatchSettlementCapacity draft = some ()) ∧
      BatchMatch.matchBatch sampleHost .release (proverMarket (sampleBatch (-1)).market)
        ((sampleBatch (-1)).intents.map proverIntent) = none :=
  ⟨sampleBatch_active (-1), sampleBatch_settled (by decide +kernel), by decide +kernel⟩

end Pnlx.Server
