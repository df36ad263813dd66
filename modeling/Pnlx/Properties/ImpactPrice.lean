import Mathlib.Data.Char
import Mathlib.Data.List.Lex
import Pnlx.Lib.Script
import Pnlx.Server.FundingPremium

/-!
# The impact price and the funding premium

`premium_faithful`: the price at which the impact notional can be executed does not depend on the
order of the intents, it is there exactly when the book holds the notional, and it lies between the
best price and the one with which the notional is reached. The premium stays within its cap.
-/

namespace Pnlx.Server

open BatchMatch (Text)
open Impact

variable {collation : Collation} {side : BookSide} {intents intents' : List PrivateMatchIntent}
  {target : ℤ}

/-! ## The order of a book -/

theorem BookSide.Better.trans {a b c : ℤ} (h : side.Better a b) (h' : side.Better b c) :
    side.Better a c := by
  unfold BookSide.Better at *
  cases side <;> exact lt_trans (by assumption) (by assumption)

theorem BookSide.Better.not_self {a : ℤ} : ¬ side.Better a a := by
  unfold BookSide.Better
  cases side <;> exact lt_irrefl a

theorem BookSide.better_or {a b : ℤ} (h : a ≠ b) : side.Better a b ∨ side.Better b a := by
  unfold BookSide.Better
  cases side
  · exact lt_or_gt_of_ne h
  · exact (lt_or_gt_of_ne h).symm

instance : Std.Total (executesBefore collation side) where
  total a b := by
    unfold executesBefore
    by_cases hprice : a.limitPrice = b.limitPrice
    · rw [if_pos hprice, if_pos hprice.symm]
      exact collation.total _ _
    · rw [if_neg hprice, if_neg (Ne.symm hprice)]
      exact BookSide.better_or hprice

instance : IsTrans PrivateMatchIntent (executesBefore collation side) where
  trans a b c h h' := by
    unfold executesBefore at *
    by_cases hab : a.limitPrice = b.limitPrice
    · rw [if_pos hab] at h
      by_cases hbc : b.limitPrice = c.limitPrice
      · rw [if_pos hbc] at h'
        rw [if_pos (hab.trans hbc)]
        exact collation.trans _ _ _ h h'
      · rw [if_neg hbc] at h'
        rwa [if_neg (hab ▸ hbc), hab]
    · rw [if_neg hab] at h
      by_cases hbc : b.limitPrice = c.limitPrice
      · rwa [if_neg (hbc ▸ hab), ← hbc]
      · rw [if_neg hbc] at h'
        have hac := h.trans h'
        rw [if_neg]
        · exact hac
        · intro heq
          rw [heq] at hac
          exact hac.not_self

/-- What comes later in the walk has no better price. -/
theorem not_better_of_executesBefore {a b : PrivateMatchIntent}
    (h : executesBefore collation side a b) : ¬ side.Better b.limitPrice a.limitPrice := by
  unfold executesBefore at h
  intro hbetter
  split_ifs at h with hprice
  · rw [hprice] at hbetter
    exact hbetter.not_self
  · exact (h.trans hbetter).not_self

/-- The intents are hexadecimal, and no two have the same commitment. -/
structure Told (intents : List PrivateMatchIntent) : Prop where
  hex : ∀ intent ∈ intents, isHex intent.intentCommitment
  distinct : (intents.map (·.intentCommitment)).Nodup

theorem Told.filter (h : Told intents) (p : PrivateMatchIntent → Bool) : Told (intents.filter p) :=
  ⟨fun intent hintent => h.hex intent (List.mem_filter.mp hintent).1,
    h.distinct.sublist (List.filter_sublist.map _)⟩

/-- **The order of the walk does not depend on the order of the intents.** -/
theorem insertionSort_told (htells : collation.TellsHex) (htold : Told intents)
    (hperm : intents.Perm intents') :
    intents'.insertionSort (executesBefore collation side) =
      intents.insertionSort (executesBefore collation side) := by
  have hall := (List.perm_insertionSort (executesBefore collation side) intents').trans
    (hperm.symm.trans (List.perm_insertionSort (executesBefore collation side) intents).symm)
  refine hall.eq_of_pairwise (fun a b ha hb hab hba => ?_) (List.pairwise_insertionSort _ _)
    (List.pairwise_insertionSort _ _)
  have ha : a ∈ intents := hperm.mem_iff.mpr ((List.mem_insertionSort _).mp ha)
  have hb : b ∈ intents := (List.mem_insertionSort _).mp hb
  have hprice : a.limitPrice = b.limitPrice := by
    by_contra hne
    unfold executesBefore at hab hba
    rw [if_neg hne] at hab
    rw [if_neg (Ne.symm hne)] at hba
    exact (hab.trans hba).not_self
  unfold executesBefore at hab hba
  rw [if_pos hprice] at hab
  rw [if_pos hprice.symm] at hba
  exact List.inj_on_of_nodup_map htold.distinct ha hb
    (htells _ _ (htold.hex a ha) (htold.hex b hb) hab hba)

theorem impactExecutionPrice_perm (htells : collation.TellsHex) (htold : Told intents)
    (hperm : intents.Perm intents') (target : ℤ) (side : BookSide) :
    impactExecutionPrice collation intents' target side =
      impactExecutionPrice collation intents target side := by
  unfold impactExecutionPrice
  rw [insertionSort_told htells htold hperm]

/-! ## The notional of a book -/

/-- The notional of an intent, rounded down. -/
def intentNotional (intent : PrivateMatchIntent) : ℤ :=
  (availableSize intent * intent.limitPrice).tdiv priceScale

/-- The notional of the intents with a positive price. -/
def bookNotional (intents : List PrivateMatchIntent) : ℤ :=
  ((intents.filter fun intent => 0 < intent.limitPrice).map intentNotional).sum

/-- An intent that can be executed. -/
def isExecutable (intent : PrivateMatchIntent) : Bool :=
  0 < availableSize intent ∧ 0 < intent.limitPrice

theorem availableSize_nonneg (intent : PrivateMatchIntent) : 0 ≤ availableSize intent := by
  unfold availableSize
  split_ifs
  · omega
  · omega

theorem intentNotional_nonneg {intent : PrivateMatchIntent} (h : isExecutable intent) :
    0 ≤ intentNotional intent := by
  obtain ⟨hsize, hprice⟩ := of_decide_eq_true h
  exact Int.tdiv_nonneg (mul_pos hsize hprice).le (by decide)

/-- An intent without a size adds nothing. -/
theorem bookNotional_eq (intents : List PrivateMatchIntent) :
    bookNotional intents = ((intents.filter isExecutable).map intentNotional).sum := by
  unfold bookNotional
  induction intents with
  | nil => rfl
  | cons intent intents ih =>
    rw [List.filter_cons, List.filter_cons]
    by_cases hprice : 0 < intent.limitPrice
    · by_cases hsize : 0 < availableSize intent
      · have hexecutable : isExecutable intent = true := decide_eq_true ⟨hsize, hprice⟩
        rw [if_pos (decide_eq_true hprice), if_pos hexecutable, List.map_cons, List.map_cons,
          List.sum_cons, List.sum_cons, ih]
      · have hexecutable : ¬ isExecutable intent = true := fun h => hsize (of_decide_eq_true h).1
        have hzero : availableSize intent = 0 :=
          le_antisymm (not_lt.mp hsize) (availableSize_nonneg intent)
        rw [if_pos (decide_eq_true hprice), if_neg hexecutable, List.map_cons, List.sum_cons, ih]
        unfold intentNotional
        rw [hzero, zero_mul, Int.zero_tdiv, zero_add]
    · have hexecutable : ¬ isExecutable intent = true := fun h => hprice (of_decide_eq_true h).2
      rw [if_neg (by simpa using hprice), if_neg hexecutable, ih]

theorem bookNotional_perm (h : intents.Perm intents') :
    bookNotional intents = bookNotional intents' := ((h.filter _).map _).sum_eq

theorem bookNotional_nonneg (intents : List PrivateMatchIntent) : 0 ≤ bookNotional intents := by
  rw [bookNotional_eq]
  refine List.sum_nonneg fun a ha => ?_
  obtain ⟨intent, hintent, rfl⟩ := List.mem_map.mp ha
  exact intentNotional_nonneg (List.mem_filter.mp hintent).2

theorem worthOf_eq (intents : List PrivateMatchIntent) :
    worthOf availableSize (·.limitPrice) priceScale intents = bookNotional intents :=
  (bookNotional_eq intents).symm

/-! ## The price -/

/-- The best price of the intents that can be executed. -/
structure IsBest (side : BookSide) (intents : List PrivateMatchIntent) (best : ℤ) : Prop where
  offered : ∃ intent ∈ intents, isExecutable intent ∧ intent.limitPrice = best
  best : ∀ intent ∈ intents, isExecutable intent → ¬ side.Better intent.limitPrice best

/-- The price with which the notional is reached: better prices alone do not reach it. -/
structure IsReached (side : BookSide) (intents : List PrivateMatchIntent) (target limit : ℤ) :
    Prop where
  before : bookNotional (intents.filter fun intent => side.Better intent.limitPrice limit) < target
  reached : target ≤
    bookNotional (intents.filter fun intent => ¬ side.Better limit intent.limitPrice)

/-- The price is neither better than `best` nor worse than `limit`. -/
def Between (side : BookSide) (best limit price : ℤ) : Prop :=
  match side with
  | .bid => limit ≤ price ∧ price ≤ best
  | .ask => best ≤ price ∧ price ≤ limit

theorem between_iff {best limit price : ℤ} :
    Between side best limit price ↔ ¬ side.Better price best ∧ ¬ side.Better limit price := by
  unfold Between BookSide.Better
  cases side
  · rw [not_lt, not_lt]
  · rw [not_lt, not_lt, and_comm]

/-- **The price is there** exactly when the book holds the notional. -/
theorem impactExecutionPrice_none_iff (intents : List PrivateMatchIntent) (target : ℤ)
    (side : BookSide) : impactExecutionPrice collation intents target side = .ok none ↔
      bookNotional intents < target := by
  unfold impactExecutionPrice
  by_cases htarget : target ≤ 0
  · rw [if_pos htarget]
    exact iff_of_false nofun (not_lt.mpr (htarget.trans (bookNotional_nonneg intents)))
  · rw [if_neg htarget]
    have hworth : worthOf availableSize (·.limitPrice) priceScale
        (intents.insertionSort (executesBefore collation side)) = bookNotional intents :=
      (worthOf_eq _).trans (bookNotional_perm (List.perm_insertionSort _ _))
    have hscale : 0 < priceScale := by decide
    by_cases hlt : bookNotional intents < target
    · have hwalk := @walk_of_lt _ availableSize (·.limitPrice) priceScale target
        (intents.insertionSort (executesBefore collation side)) ⟨0, 0, 0⟩ hscale
        (by rw [hworth]; simpa using hlt)
      refine iff_of_true ?_ hlt
      dsimp only
      rw [if_pos]
      left
      rw [hwalk, hworth]
      simpa using hlt
    · obtain ⟨pre, x, post, part, hsplit, -, -, hpart, -, hstop, hsize, -⟩ :=
        @walk_of_le _ availableSize (·.limitPrice) priceScale target
          (intents.insertionSort (executesBefore collation side)) ⟨0, 0, 0⟩ hscale
          (not_le.mp htarget) (by rw [hworth]; simpa using hlt)
      refine iff_of_false ?_ hlt
      dsimp only
      rw [if_neg]
      · exact nofun
      · have hpre : 0 ≤ (pre.map availableSize).sum := List.sum_nonneg fun a ha => by
          obtain ⟨intent, -, rfl⟩ := List.mem_map.mp ha
          exact availableSize_nonneg intent
        dsimp only at hsize
        omega

/-- The notional of a part of the book is the one of the orders that are walked. -/
theorem bookNotional_filter {book : List PrivateMatchIntent}
    (hbook : book.Perm (intents.filter isExecutable)) (p : PrivateMatchIntent → Bool) :
    bookNotional (intents.filter p) = ((book.filter p).map intentNotional).sum := by
  rw [bookNotional_eq, List.filter_comm]
  exact (((hbook.filter p).map intentNotional).sum_eq).symm

section Book

variable {pre post : List PrivateMatchIntent} {x : PrivateMatchIntent}
  (hbook : (pre ++ x :: post).Perm (intents.filter isExecutable))
  (horder : (pre ++ x :: post).Pairwise (executesBefore collation side))

include hbook

theorem executable_of_mem {y : PrivateMatchIntent} (hy : y ∈ pre ++ x :: post) :
    0 < availableSize y ∧ 0 < y.limitPrice :=
  of_decide_eq_true (List.mem_filter.mp (hbook.mem_iff.mp hy)).2

theorem sum_notional_nonneg {book : List PrivateMatchIntent}
    (h : ∀ y ∈ book, y ∈ pre ++ x :: post) : 0 ≤ (book.map intentNotional).sum :=
  List.sum_nonneg fun a ha => by
    obtain ⟨y, hy, rfl⟩ := List.mem_map.mp ha
    exact intentNotional_nonneg (decide_eq_true (executable_of_mem hbook (h y hy)))

include horder

/-- The first order of the walk has the best price. -/
theorem isBest_head (y : PrivateMatchIntent) (hy : (pre ++ x :: post).head? = some y) :
    IsBest side intents y.limitPrice := by
  have hmem : ∀ z, z ∈ pre ++ x :: post ↔ z ∈ intents ∧ isExecutable z = true := fun z => by
    rw [hbook.mem_iff, List.mem_filter]
  obtain ⟨rest, hrest⟩ : ∃ rest, pre ++ x :: post = y :: rest := List.head?_eq_some_iff.mp hy
  rw [hrest] at horder hmem
  obtain ⟨hintent, hexecutable⟩ := (hmem y).mp List.mem_cons_self
  refine ⟨⟨y, hintent, hexecutable, rfl⟩, fun z hz hzExecutable => ?_⟩
  obtain heq | hz := List.mem_cons.mp ((hmem z).mpr ⟨hz, hzExecutable⟩)
  · rw [heq]
    exact BookSide.Better.not_self
  · exact not_better_of_executesBefore ((List.pairwise_cons.mp horder).1 z hz)

/-- The order that is taken last has the price with which the notional is reached. -/
theorem isReached_last (hbelow : (pre.map intentNotional).sum < target)
    (hreached : target ≤ (pre.map intentNotional).sum + intentNotional x) :
    IsReached side intents target x.limitPrice := by
  obtain ⟨hpreOrder, hxOrder, hcross⟩ := List.pairwise_append.mp horder
  have hpre : ∀ y ∈ pre, ¬ side.Better x.limitPrice y.limitPrice := fun y hy =>
    not_better_of_executesBefore (hcross y hy x List.mem_cons_self)
  have hpost : ∀ y ∈ post, ¬ side.Better y.limitPrice x.limitPrice := fun y hy =>
    not_better_of_executesBefore ((List.pairwise_cons.mp hxOrder).1 y hy)
  constructor
  · rw [bookNotional_filter hbook, List.filter_append]
    have hnone : (x :: post).filter (fun y => decide (side.Better y.limitPrice x.limitPrice)) =
        [] := by
      refine List.filter_eq_nil_iff.mpr fun y hy => ?_
      obtain rfl | hy := List.mem_cons.mp hy
      · simpa using BookSide.Better.not_self
      · simpa using hpost y hy
    rw [hnone, List.append_nil]
    refine lt_of_le_of_lt ?_ hbelow
    refine List.Sublist.sum_le_sum (List.filter_sublist.map _) fun a ha => ?_
    obtain ⟨y, hy, rfl⟩ := List.mem_map.mp ha
    exact intentNotional_nonneg (decide_eq_true
      (executable_of_mem hbook (List.mem_append_left _ hy)))
  · have hall : pre.filter (fun y => decide (¬ side.Better x.limitPrice y.limitPrice)) = pre :=
      List.filter_eq_self.mpr fun y hy => decide_eq_true (hpre y hy)
    have hcons : (x :: post).filter (fun y => decide (¬ side.Better x.limitPrice y.limitPrice)) =
        x :: post.filter (fun y => decide (¬ side.Better x.limitPrice y.limitPrice)) :=
      List.filter_cons_of_pos (decide_eq_true BookSide.Better.not_self)
    have hrest : 0 ≤ ((post.filter fun y =>
        decide (¬ side.Better x.limitPrice y.limitPrice)).map intentNotional).sum :=
      sum_notional_nonneg hbook fun y hy =>
        List.mem_append_right _ (List.mem_cons_of_mem _ (List.mem_filter.mp hy).1)
    rw [bookNotional_filter hbook, List.filter_append, hall, hcons, List.map_append, List.map_cons,
      List.sum_append, List.sum_cons]
    omega

/-- What is taken has a price between the best one and the last one. -/
theorem between_of_mem (y z : PrivateMatchIntent) (hy : (pre ++ x :: post).head? = some y)
    (hz : z ∈ pre ∨ z = x) : Between side y.limitPrice x.limitPrice z.limitPrice := by
  rw [between_iff]
  have hmem : z ∈ pre ++ x :: post := by
    obtain hz | rfl := hz
    · exact List.mem_append_left _ hz
    · exact List.mem_append_right _ List.mem_cons_self
  refine ⟨(isBest_head hbook horder y hy).best z
    (List.mem_filter.mp (hbook.mem_iff.mp hmem)).1 (List.mem_filter.mp (hbook.mem_iff.mp hmem)).2,
    ?_⟩
  obtain hz | rfl := hz
  · exact not_better_of_executesBefore
      ((List.pairwise_append.mp horder).2.2 z hz x List.mem_cons_self)
  · exact BookSide.Better.not_self

/-- The average price of what is taken is between them, too. -/
theorem between_average {part : ℤ} (hpart : 0 < part) (y : PrivateMatchIntent)
    (hy : (pre ++ x :: post).head? = some y) :
    Between side y.limitPrice x.limitPrice
      (((pre.map fun z => availableSize z * z.limitPrice).sum + part * x.limitPrice).tdiv
        ((pre.map availableSize).sum + part)) := by
  have hbetween := between_of_mem hbook horder y
  have hpositive : ∀ z, z ∈ pre ++ x :: post → 0 < availableSize z ∧ 0 < z.limitPrice :=
    fun z hz => executable_of_mem hbook hz
  have hx := (hpositive x (List.mem_append_right _ List.mem_cons_self)).2
  unfold Between at hbetween ⊢
  cases side
  · refine average_part_bounds (fun z hz => ?_) hpart hx (hbetween x hy (.inr rfl)).1
      (hbetween x hy (.inr rfl)).2
    obtain ⟨hsize, hprice⟩ := hpositive z (List.mem_append_left _ hz)
    exact ⟨hsize, hprice, hbetween z hy (.inl hz)⟩
  · refine average_part_bounds (fun z hz => ?_) hpart hx (hbetween x hy (.inr rfl)).1
      (hbetween x hy (.inr rfl)).2
    obtain ⟨hsize, hprice⟩ := hpositive z (List.mem_append_left _ hz)
    exact ⟨hsize, hprice, hbetween z hy (.inl hz)⟩

end Book

/-- **The price lies between** the best price and the one with which the notional is reached. -/
theorem impactExecutionPrice_between (htarget : 0 < target) (henough : target ≤ bookNotional intents) :
    ∃ price best limit, impactExecutionPrice collation intents target side = .ok (some price) ∧
      IsBest side intents best ∧ IsReached side intents target limit ∧
      Between side best limit price := by
  have hperm := List.perm_insertionSort (executesBefore collation side) intents
  have hsorted := List.pairwise_insertionSort (executesBefore collation side) intents
  have hworth : worthOf availableSize (·.limitPrice) priceScale
      (intents.insertionSort (executesBefore collation side)) = bookNotional intents :=
    (worthOf_eq _).trans (bookNotional_perm hperm)
  have hsome : impactExecutionPrice collation intents target side ≠ .ok none := fun hnone =>
    not_lt.mpr henough ((impactExecutionPrice_none_iff intents target side).mp hnone)
  obtain ⟨pre, x, post, part, hsplit, hbelow, hreached, hpart, -, -, hsize, hcost⟩ :=
    @walk_of_le _ availableSize (·.limitPrice) priceScale target
      (intents.insertionSort (executesBefore collation side)) ⟨0, 0, 0⟩ (by decide) htarget
      (by rw [hworth]; simpa using henough)
  have hbook : (pre ++ x :: post).Perm (intents.filter isExecutable) := by
    rw [← hsplit]
    exact hperm.filter _
  have horder : (pre ++ x :: post).Pairwise (executesBefore collation side) := by
    rw [← hsplit]
    exact hsorted.sublist List.filter_sublist
  obtain ⟨best, hbest⟩ : ∃ best, (pre ++ x :: post).head? = some best := by
    cases pre with
    | nil => exact ⟨x, rfl⟩
    | cons y pre => exact ⟨y, rfl⟩
  dsimp only at hbelow hreached hsize hcost
  rw [zero_add] at hbelow hreached hsize hcost
  refine ⟨_, best.limitPrice, x.limitPrice, ?_, isBest_head hbook horder best hbest,
    isReached_last hbook horder hbelow hreached, between_average hbook horder hpart best hbest⟩
  unfold impactExecutionPrice at hsome ⊢
  rw [if_neg (not_le.mpr htarget)] at hsome ⊢
  dsimp only at hsome ⊢
  split_ifs at hsome ⊢
  · exact absurd rfl hsome
  · rw [hsize, hcost]

/-! ## The premium -/

theorem clampSigned_within {value cap rate : ℤ} (h : clampSigned value cap = .ok rate) :
    -cap ≤ rate ∧ rate ≤ cap := by
  unfold clampSigned at h
  split_ifs at h <;> cases h <;> omega

theorem fundingPremiumSample_perm (htells : collation.TellsHex) (htold : Told intents)
    (hperm : intents.Perm intents') (market : SampledMarket) (sampledAt impactMargin cap : ℤ) :
    fundingPremiumSample collation market intents' sampledAt impactMargin cap =
      fundingPremiumSample collation market intents sampledAt impactMargin cap := by
  unfold fundingPremiumSample
  dsimp only
  rw [impactExecutionPrice_perm htells (htold.filter _) (hperm.filter _) _ .bid,
    impactExecutionPrice_perm htells (htold.filter _) (hperm.filter _) _ .ask]

theorem fundingPremiumSample_within {market : SampledMarket} {sampledAt impactMargin cap : ℤ}
    {sample : FundingPremiumSampleRecord}
    (h : fundingPremiumSample collation market intents sampledAt impactMargin cap = .ok sample) :
    -cap ≤ sample.premiumRate ∧ sample.premiumRate ≤ cap := by
  unfold fundingPremiumSample at h
  split_ifs at h
  dsimp only at h
  obtain ⟨bid, hbid, h⟩ := Script.except_bind_eq_ok.mp h
  obtain ⟨ask, hask, h⟩ := Script.except_bind_eq_ok.mp h
  obtain ⟨rate, hrate, h⟩ := Script.except_bind_eq_ok.mp h
  cases h
  exact clampSigned_within hrate

theorem countedSamples_perm {records records' : List FundingPremiumSampleRecord}
    (hperm : records.Perm records') (intervalMs : ℤ) (marketId : Text) (appliedAt : ℤ) :
    (countedSamples records' intervalMs marketId appliedAt).Perm
      (countedSamples records intervalMs marketId appliedAt) := by
  unfold countedSamples
  dsimp only
  refine (List.perm_insertionSort _ _).trans (List.Perm.trans ?_ (List.perm_insertionSort _ _).symm)
  exact ((hperm.filter _).filter _).symm

theorem currentFundingPremium_perm {records records' : List FundingPremiumSampleRecord}
    (hperm : records.Perm records') (config : FundingEngineConfig) (marketId : Text)
    (appliedAt : ℤ) (override : Option ℤ) :
    currentFundingPremium records' config marketId appliedAt override =
      currentFundingPremium records config marketId appliedAt override := by
  have hcounted := countedSamples_perm hperm config.intervalMs marketId appliedAt
  have hsum := (hcounted.map fun sample => sample.premiumRate).sum_eq
  unfold currentFundingPremium
  dsimp only
  rw [hcounted.length_eq, hsum]

/-- What a premium's rate is bounded by. -/
structure FundingPremium.Within (premium : FundingPremium) (cap : ℤ) : Prop where
  within : premium.reason = none → -cap ≤ premium.rate ∧ premium.rate ≤ cap
  insufficient : premium.reason ≠ none → premium.rate = 0

theorem currentFundingPremium_within {records : List FundingPremiumSampleRecord}
    {config : FundingEngineConfig} {marketId : Text} {appliedAt : ℤ} {override : Option ℤ}
    {premium : FundingPremium}
    (h : currentFundingPremium records config marketId appliedAt override = .ok premium) :
    premium.Within (config.premiumRateCap.getD defaultPremiumRateCap) := by
  unfold currentFundingPremium at h
  split_ifs at h with hfixed
  · obtain ⟨rate, hrate, h⟩ := Script.except_bind_eq_ok.mp h
    cases h
    exact ⟨fun _ => clampSigned_within hrate, fun hreason => absurd rfl hreason⟩
  · dsimp only at h
    split_ifs at h with hfew hempty
    · cases h
      exact ⟨fun hreason => absurd hreason (by simp), fun _ => rfl⟩
    · obtain ⟨rate, hrate, h⟩ := Script.except_bind_eq_ok.mp h
      cases h
      exact ⟨fun _ => clampSigned_within hrate, fun hreason => absurd rfl hreason⟩

/-- A price that is faithful to the book. -/
structure PriceFaithful (collation : Collation) (intents : List PrivateMatchIntent) (target : ℤ)
    (side : BookSide) : Prop where
  order : ∀ intents', intents.Perm intents' →
    impactExecutionPrice collation intents' target side =
      impactExecutionPrice collation intents target side
  undefined : impactExecutionPrice collation intents target side = .ok none ↔
    bookNotional intents < target
  between : 0 < target → target ≤ bookNotional intents → ∃ price best limit,
    impactExecutionPrice collation intents target side = .ok (some price) ∧
      IsBest side intents best ∧ IsReached side intents target limit ∧
      Between side best limit price

/-- A sample that is faithful to the book. -/
structure SampleFaithful (collation : Collation) (intents : List PrivateMatchIntent)
    (market : SampledMarket) (sampledAt impactMargin cap : ℤ) : Prop where
  order : ∀ intents', intents.Perm intents' →
    fundingPremiumSample collation market intents' sampledAt impactMargin cap =
      fundingPremiumSample collation market intents sampledAt impactMargin cap
  within : ∀ sample,
    fundingPremiumSample collation market intents sampledAt impactMargin cap = .ok sample →
      -cap ≤ sample.premiumRate ∧ sample.premiumRate ≤ cap

/-- A premium that is faithful to the samples. -/
structure PremiumFaithful (records : List FundingPremiumSampleRecord)
    (config : FundingEngineConfig) (marketId : Text) (appliedAt : ℤ) (override : Option ℤ) :
    Prop where
  order : ∀ records', records.Perm records' →
    currentFundingPremium records' config marketId appliedAt override =
      currentFundingPremium records config marketId appliedAt override
  within : ∀ premium, currentFundingPremium records config marketId appliedAt override =
    .ok premium → premium.Within (config.premiumRateCap.getD defaultPremiumRateCap)

/-- **The funding premium is a faithful impact price.** The price does not depend on the order of
the intents, is undefined exactly when the book does not hold the notional, and is otherwise between
the best price and the one with which the notional is reached. The rate of a sample and of a premium
is within the cap, and does not depend on an order either. -/
theorem premium_faithful (htells : collation.TellsHex) (htold : Told intents) :
    (∀ target side, PriceFaithful collation intents target side) ∧
    (∀ market sampledAt impactMargin cap,
      SampleFaithful collation intents market sampledAt impactMargin cap) ∧
    ∀ records config marketId appliedAt override,
      PremiumFaithful records config marketId appliedAt override := by
  refine ⟨fun target side => ⟨fun intents' hperm => ?_, ?_, impactExecutionPrice_between⟩,
    fun market sampledAt impactMargin cap => ⟨fun intents' hperm => ?_, fun sample hsample => ?_⟩,
    fun records config marketId appliedAt override => ⟨fun records' hperm => ?_,
      fun premium hpremium => ?_⟩⟩
  · exact impactExecutionPrice_perm htells htold hperm target side
  · exact impactExecutionPrice_none_iff intents target side
  · exact fundingPremiumSample_perm htells htold hperm market sampledAt impactMargin cap
  · exact fundingPremiumSample_within hsample
  · exact currentFundingPremium_perm hperm config marketId appliedAt override
  · exact currentFundingPremium_within hpremium

/-- The collation by code points. -/
def byCodePoints : Collation where
  le a b := decide (a ≤ b)
  total a b := (le_total a b).imp (fun h => decide_eq_true h) fun h => decide_eq_true h
  trans _ _ _ h h' := decide_eq_true (le_trans (of_decide_eq_true h) (of_decide_eq_true h'))

theorem byCodePoints_tells : byCodePoints.TellsHex := fun _ _ _ _ h h' =>
  le_antisymm (of_decide_eq_true h) (of_decide_eq_true h')

/-- An ask of the sample book. -/
def sampleAsk (n : ℕ) (size limitPrice : ℤ) : PrivateMatchIntent where
  batchId := "batch-1".toList
  intentCommitment := BatchMatch.hexText n
  limitPrice := limitPrice
  margin := 100000
  marketId := "xlm-usd-perp".toList
  noteChangeCommitment := BatchMatch.hexText (100 + n)
  noteNullifier := BatchMatch.hexText (200 + n)
  ownerCommitment := BatchMatch.hexText (300 + n)
  signedSize := -size
  sourceIntentCommitment := none

/-- Three asks, the best one last. -/
def sampleBook : List PrivateMatchIntent :=
  [sampleAsk 1 2000000 12000000, sampleAsk 2 3000000 11000000, sampleAsk 3 1000000 10000000]

theorem sampleBook_told : Told sampleBook where
  hex := by decide +kernel
  distinct := by decide +kernel

/-- The last of the three asks is taken in part. -/
theorem premium_faithful_sample :
    impactExecutionPrice byCodePoints sampleBook 500000 .ask = .ok (some 10909091) ∧
      (∀ target side, PriceFaithful byCodePoints sampleBook target side) ∧
      (∀ market sampledAt impactMargin cap,
        SampleFaithful byCodePoints sampleBook market sampledAt impactMargin cap) ∧
      ∀ records config marketId appliedAt override,
        PremiumFaithful records config marketId appliedAt override :=
  ⟨by decide +kernel, premium_faithful byCodePoints_tells sampleBook_told⟩

end Pnlx.Server
