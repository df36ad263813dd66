import Pnlx.Properties.OracleRounds

/-!
# Progress of the price oracle

Fewer publishers than the threshold are faulty and submit what they like. The others submit close
and fresh prices for one round (`Schedule`). Later rounds then have only faulty submissions, too few
for one of them to be published (`Course`), and as long as the round is pending every honest
submission is accepted, unless one that is stored for the round is too far from it.

1. `Course.step`, `Course.run`: every honest submission is recorded, or the round is published.
2. `outlier_blocks`: a single faulty submission for the round keeps it from being published.
3. `round_published`: unless a stored submission for the round deviates, it is published, and later
   rounds are as open as it was.
-/

namespace Pnlx.PriceOracle

open Program Runs

/-! ## Configurations -/

/-- What the contract checks of a configuration. -/
structure CommitteeConfig.Valid (config : CommitteeConfig) : Prop where
  threshold : config.threshold ≤ maxCommitteeSubmissions
  deviation : config.maxDeviationBps ≤ 10000

/-- A configuration that is new is valid. -/
def ConfigChecked (s s' : Storage) : Prop :=
  ∀ config, s'.committeeConfig = some config → s.committeeConfig = some config ∨ config.Valid

instance : Std.Refl ConfigChecked := ⟨fun _ _ h => Or.inl h⟩

instance : IsTrans Storage ConfigChecked :=
  ⟨fun _ _ _ h h' config hc => (h' config hc).elim (h config) Or.inr⟩

theorem configChecked_of_run {env : OracleEnv} {s s' : Storage} {call : Call}
    (h : Returns call.run env s () s') : ConfigChecked s s' := by
  have hkept {f : Storage → Storage} (hf : ∀ s, (f s).committeeConfig = s.committeeConfig) :
      Respects ConfigChecked (update f : OracleCall Unit) :=
    Respects.update fun s config hc => Or.inl ((hf s).symm.trans hc)
  unfold Call.run at h
  cases call with
  | init admin decimals =>
    unfold init at h
    simp only [returns_bind, returns_update] at h
    obtain ⟨-, s₁, -, _, s₂, -, _, s₃, -, _, s₄, -, rfl⟩ := h
    intro config hc
    rw [← Option.some.inj hc]
    exact Or.inr ⟨by decide, by decide⟩
  | setUpgradeAuthority authority =>
    have hrespects : Respects ConfigChecked (setUpgradeAuthority authority) := by
      unfold setUpgradeAuthority
      repeat refine Respects.andThen inferInstance fun _ => ?_
      exact hkept fun _ => rfl
    exact hrespects.rel h
  | rotateUpgradeAuthority authority =>
    have hrespects : Respects ConfigChecked (rotateUpgradeAuthority authority) := by
      unfold rotateUpgradeAuthority
      repeat refine Respects.andThen inferInstance fun _ => ?_
      exact hkept fun _ => rfl
    exact hrespects.rel h
  | configureCommittee admin threshold age bps =>
    unfold configureCommittee validateCommitteeConfig at h
    simp only [returns_bind, returns_requireAdmin, returns_failIf, returns_update, exists_eq_left,
      exists_and_left, and_assoc, exists_const, not_or, gt_iff_lt, not_lt] at h
    obtain ⟨-, -, -, hthreshold, -, -, hbps, rfl⟩ := h
    intro config hc
    rw [← Option.some.inj hc]
    exact Or.inr ⟨hthreshold, hbps⟩
  | setPublisher admin publisher enabled =>
    have hrespects : Respects ConfigChecked (setPublisher admin publisher enabled) := by
      unfold setPublisher
      repeat refine Respects.andThen inferInstance fun _ => ?_
      exact hkept fun _ => rfl
    exact hrespects.rel h
  | writePrice =>
    obtain ⟨-, -, rfl⟩ := returns_writePrice.mp h
    exact fun config hc => Or.inl hc
  | submitPrice =>
    obtain ⟨_, -, ⟨-, rfl⟩ | ⟨-, _, -, rfl⟩⟩ := returns_submitPrice.mp h
    · exact fun config hc => Or.inl hc
    · exact fun config hc => Or.inl hc

/-- Every configuration of a reachable storage is valid. -/
theorem config_valid (as : List Tx) {config : CommitteeConfig}
    (h : (final step Storage.blank as).committeeConfig = some config) : config.Valid := by
  have hstep (s : Storage) (tx : Tx) (s' : Storage) (h : step s tx = .ok s') : ConfigChecked s s' :=
    configChecked_of_run (step_eq_ok.mp h)
  have hrel : ConfigChecked Storage.blank (final step Storage.blank as) := (related_of_mem hstep).1
  exact (hrel config h).elim (fun h => by cases h) id

/-! ## Schedules -/

/-- The submission for an asset that its publisher has signed: publisher, round and data. -/
def Tx.vote (asset : OracleAsset) (tx : Tx) : Option (Address × ℕ × PriceData) :=
  match tx.call with
  | .submitPrice publisher asset' round price timestamp =>
    if asset' = asset ∧ publisher ∈ tx.signers then
      some (publisher, round, ⟨price, timestamp⟩)
    else none
  | _ => none

/-- The transaction is a submission. -/
def Tx.Submits (tx : Tx) : Prop :=
  match tx.call with
  | .submitPrice .. => True
  | _ => False

/-- A submission by an authorised publisher of a fresh price for the round. -/
structure Proper (s : Storage) (config : CommitteeConfig) (round now : ℕ)
    (vote : Address × ℕ × PriceData) : Prop where
  round : vote.2.1 = round
  authorised : s.publisher vote.1 = some true
  positive : 0 < vote.2.2.price.toInt
  past : vote.2.2.timestamp ≤ now
  fresh : now - vote.2.2.timestamp ≤ config.maxTimestampAge

/-- Each of the prices is close to each of them. -/
def Close (bps : ℕ) (prices : Set ℤ) : Prop := ∀ p ∈ prices, ∀ q ∈ prices, Within bps p q

theorem close_of_list {bps : ℕ} {prices : Set ℤ} {l : List ℤ} (hprices : ∀ p ∈ prices, p ∈ l)
    (hl : ∀ p ∈ l, ∀ q ∈ l, Within bps p q) : Close bps prices :=
  fun p hp q hq => hl p (hprices p hp) q (hprices q hq)

/-- The prices that publishers who are not faulty submit. -/
def honestPrices (asset : OracleAsset) (faulty : Finset Address) (as : List Tx) : Set ℤ :=
  {p | ∃ tx ∈ as, ∃ vote ∈ tx.vote asset, vote.1 ∉ faulty ∧ vote.2.2.price.toInt = p}

/-- The prices that have been submitted for the round, before and in a run. -/
def storedPrices (s : Storage) (asset : OracleAsset) (round : ℕ) (as : List Tx) : Set ℤ :=
  {p | p ∈ pricesOf (s.submissions asset round) ∨
    ∃ x ∈ accepted step s as, ∃ vote ∈ ballots asset round x, vote.2.price.toInt = p}

/-- Fewer publishers than the threshold are faulty; from the given round on only they have submitted
anything so far. In the schedule anybody submits anything, but the others only close and fresh
prices for that round, and as many of them as the threshold asks for do so. -/
structure Schedule (s : Storage) (asset : OracleAsset) (round : ℕ) (config : CommitteeConfig)
    (faulty quorum : Finset Address) (as : List Tx) : Prop where
  configured : s.committeeConfig = some config
  few : faulty.card < config.threshold
  next : s.latest asset < round
  early : ∀ r publisher, round ≤ r → s.submission (asset, r, publisher) ≠ none →
    publisher ∈ faulty
  submits : ∀ tx ∈ as, tx.Submits
  proper : ∀ tx ∈ as, ∀ vote ∈ tx.vote asset, vote.1 ∉ faulty →
    Proper s config round tx.timestamp vote
  close : Close config.maxDeviationBps (honestPrices asset faulty as)
  enough : config.threshold ≤ quorum.card
  voted : ∀ publisher ∈ quorum, publisher ∉ faulty ∧
    ∃ tx ∈ as, ∃ vote ∈ tx.vote asset, vote.1 = publisher

/-- A submission after which another round is the latest one has published it. -/
theorem published_of_flip {x : Step Storage Tx} {asset : OracleAsset} {round : ℕ}
    (hx : step x.pre x.act = .ok x.post) (hsubmits : x.act.Submits)
    (hpre : x.pre.latestRound asset ≠ some round) (hpost : x.post.latestRound asset = some round) :
    ∃ data, (round, data) ∈ published asset x := by
  unfold Tx.Submits at hsubmits
  cases hcall : x.act.call with
  | submitPrice publisher asset' round' price timestamp =>
    obtain ⟨_, -, ⟨-, hrecord, -⟩ | ⟨-, data, -, hpublish, hlog⟩⟩ := submit_log hx hcall
    · rw [hrecord] at hpost
      exact absurd hpost hpre
    · rw [hpublish, latestRound_publish] at hpost
      by_cases hasset : asset' = asset
      · rw [if_pos hasset] at hpost
        obtain rfl := Option.some.inj hpost
        refine ⟨data, ?_⟩
        rw [hlog, if_pos hasset]
        exact List.mem_singleton_self _
      · rw [if_neg hasset] at hpost
        exact absurd hpost hpre
  | _ =>
    rw [hcall] at hsubmits
    exact hsubmits.elim

/-! ## Voters -/

section Voters

variable {s : Storage} {l : List (Step Storage Tx)} {asset : OracleAsset} {round : ℕ}

/-- The publishers that have submitted to a round are as many as its submissions. -/
theorem Balloted.exists_voters (h : Balloted s l) (asset : OracleAsset) (round : ℕ) :
    ∃ voters : Finset Address, voters.card = (s.submissions asset round).length ∧
      ∀ publisher, publisher ∈ voters ↔ s.submission (asset, round, publisher) ≠ none := by
  refine ⟨((l.flatMap (ballots asset round)).map Prod.fst).toFinset, ?_, fun publisher => ?_⟩
  · rw [List.toFinset_card_of_nodup (h.distinct asset round), h.submissions, List.length_map,
      List.length_map]
  · rw [List.mem_toFinset, List.mem_map, ← Option.isSome_iff_ne_none, Option.isSome_iff_exists]
    constructor
    · rintro ⟨⟨publisher', data⟩, hmem, rfl⟩
      exact ⟨data, (h.submission asset round publisher' data).mpr hmem⟩
    · rintro ⟨data, hdata⟩
      exact ⟨(publisher, data), (h.submission asset round publisher data).mp hdata, rfl⟩

/-- A round to which only publishers of a set have submitted has at most as many submissions, and
fewer if one of them has not. -/
theorem Balloted.length_le (h : Balloted s l) {among : Finset Address}
    (hvoters : ∀ publisher, s.submission (asset, round, publisher) ≠ none → publisher ∈ among) :
    (s.submissions asset round).length ≤ among.card := by
  obtain ⟨voters, hcard, hmem⟩ := h.exists_voters asset round
  rw [← hcard]
  exact Finset.card_le_card fun publisher hp => hvoters publisher ((hmem publisher).mp hp)

theorem Balloted.length_lt (h : Balloted s l) {among : Finset Address}
    (hvoters : ∀ publisher, s.submission (asset, round, publisher) ≠ none → publisher ∈ among)
    {publisher : Address} (hp : publisher ∈ among)
    (hnone : s.submission (asset, round, publisher) = none) :
    (s.submissions asset round).length < among.card := by
  obtain ⟨voters, hcard, hmem⟩ := h.exists_voters asset round
  rw [← hcard]
  refine Finset.card_lt_card ⟨fun q hq => hvoters q ((hmem q).mp hq), fun hsub => ?_⟩
  exact (hmem publisher).mp (hsub hp) hnone

theorem Balloted.card_le (h : Balloted s l) {quorum : Finset Address}
    (hquorum : ∀ publisher ∈ quorum, s.submission (asset, round, publisher) ≠ none) :
    quorum.card ≤ (s.submissions asset round).length := by
  obtain ⟨voters, hcard, hmem⟩ := h.exists_voters asset round
  rw [← hcard]
  exact Finset.card_le_card fun publisher hp => (hmem publisher).mpr (hquorum publisher hp)

end Voters

/-! ## Aggregation of close prices -/

theorem exists_of_findMedian {submissions candidates : List PriceData} {target : ℕ} {median : I128}
    (h : findMedian submissions target candidates = some median) :
    ∃ data ∈ candidates, data.price = median := by
  induction candidates with
  | nil => cases h
  | cons data rest ih =>
    unfold findMedian at h
    dsimp only at h
    split_ifs at h with hrank
    · exact ⟨data, List.mem_cons_self, Option.some.inj h⟩
    · obtain ⟨data', hmem, he⟩ := ih h
      exact ⟨data', List.mem_cons_of_mem _ hmem, he⟩

/-- Submissions with close prices can be aggregated. -/
theorem exists_aggregates {submissions : List PriceData} {bps : ℕ} {prices : Set ℤ} (now : ℕ)
    (hbps : bps ≤ 10000) (hclose : Close bps prices) (hne : submissions ≠ [])
    (hprices : ∀ data ∈ submissions, data.price.toInt ∈ prices) :
    ∃ data, Aggregates submissions bps now data := by
  obtain ⟨median, hmedian⟩ := exists_findMedian hne
  have hmedian := hmedian _ (List.Perm.refl _)
  obtain ⟨middle, hmem, rfl⟩ := exists_of_findMedian hmedian
  have hcast : (BitVec.ofNat 128 bps).toInt = bps := by
    rw [BitVec.toInt_eq_toNat_of_lt, BitVec.toNat_ofNat, Nat.mod_eq_of_lt (by omega)]
    rw [BitVec.toNat_ofNat, Nat.mod_eq_of_lt (by omega)]
    omega
  refine ⟨⟨middle.price, submissions.foldl (fun timestamp d =>
    if d.timestamp < timestamp then d.timestamp else timestamp) now⟩, hmedian,
    fun data hdata => ?_, rfl⟩
  rw [hcast]
  exact hclose _ (hprices middle hmem) _ (hprices data hdata)

/-! ## The course of a round -/

section Course

/-- While a schedule runs, whatever has been submitted to later rounds is faulty. -/
structure Course (s₀ : Storage) (asset : OracleAsset) (round : ℕ) (config : CommitteeConfig)
    (faulty : Finset Address) (s : Storage) : Prop where
  logged : ∃ steps, Logged s steps
  configured : s.committeeConfig = some config
  publisher : s.publisher = s₀.publisher
  later : ∀ r publisher, round < r → s.submission (asset, r, publisher) ≠ none →
    publisher ∈ faulty

/-- The round is not published, and has too few submissions for that. -/
structure Pending (asset : OracleAsset) (round : ℕ) (config : CommitteeConfig) (prices : Set ℤ)
    (s : Storage) : Prop where
  next : s.latest asset < round
  short : (s.submissions asset round).length < config.threshold
  close : ∀ data ∈ s.submissions asset round, data.price.toInt ∈ prices

/-- The publisher has submitted to the round, or it has been published. -/
def Voted (asset : OracleAsset) (round : ℕ) (s : Storage) (publisher : Address) : Prop :=
  s.latestRound asset = some round ∨ s.submission (asset, round, publisher) ≠ none

variable {s₀ s s' : Storage} {asset : OracleAsset} {round : ℕ} {config : CommitteeConfig}
  {faulty : Finset Address} {prices : Set ℤ} {tx : Tx}

/-- An honest submission for a pending round is accepted. -/
theorem Course.accepts (h : Course s₀ asset round config faulty s) (env : OracleEnv)
    (hvalid : config.Valid) (hpending : Pending asset round config prices s)
    (hclose : Close config.maxDeviationBps prices) {publisher : Address} {price : I128}
    {timestamp : ℕ} (hsigned : publisher ∈ env.signers)
    (hproper : Proper s₀ config round env.timestamp (publisher, round, ⟨price, timestamp⟩))
    (hprice : price.toInt ∈ prices)
    (hunused : s.submission (asset, round, publisher) = none) :
    ∃ s', Returns (submitPrice publisher asset round price timestamp) env s () s' := by
  have hadmissible : Admissible env s publisher asset round ⟨price, timestamp⟩ config :=
    ⟨hproper.positive, h.publisher ▸ hproper.authorised, hsigned, h.configured, hproper.past,
      hproper.fresh, hpending.next, hunused, hpending.short.trans_le hvalid.threshold⟩
  by_cases hreached : config.threshold ≤ (s.submissions asset round).length + 1
  · have hstored : ∀ data ∈ s.submissions asset round ++ [⟨price, timestamp⟩],
        data.price.toInt ∈ prices := by
      intro data hdata
      rcases List.mem_append.mp hdata with hdata | hdata
      · exact hpending.close data hdata
      · rw [List.mem_singleton.mp hdata]
        exact hprice
    obtain ⟨data, hdata⟩ := exists_aggregates env.timestamp hvalid.deviation hclose
      (List.append_ne_nil_of_right_ne_nil _ (List.cons_ne_nil _ _)) hstored
    exact ⟨_, returns_submitPrice.mpr ⟨config, hadmissible, Or.inr ⟨hreached, data, hdata, rfl⟩⟩⟩
  · exact ⟨_, returns_submitPrice.mpr
      ⟨config, hadmissible, Or.inl ⟨not_le.mp hreached, rfl⟩⟩⟩

/-- The submission is recorded, whether or not a round is published then. -/
structure Recorded (publisher : Address) (asset : OracleAsset) (round : ℕ) (data : PriceData)
    (s s' : Storage) : Prop where
  configured : s'.committeeConfig = s.committeeConfig
  publishers : s'.publisher = s.publisher
  submission : s'.submission = (s.record publisher asset round data).submission
  submissions : s'.roundSubmissions = (s.record publisher asset round data).roundSubmissions

section Recorded

variable {publisher publisher' : Address} {asset' : OracleAsset} {round' : ℕ} {data : PriceData}

/-- Only faulty publishers submit to other rounds. -/
theorem Course.recorded (h : Course s₀ asset round config faulty s)
    (hrecorded : Recorded publisher asset' round' data s s') (hlogged : ∃ steps, Logged s' steps)
    (hfaulty : asset' = asset → round' ≠ round → publisher ∈ faulty) :
    Course s₀ asset round config faulty s' := by
  refine ⟨hlogged, hrecorded.configured.trans h.configured,
    hrecorded.publishers.trans h.publisher, fun r p hr hvoted => ?_⟩
  rw [hrecorded.submission, submission_record] at hvoted
  by_cases hnew : asset' = asset ∧ round' = r ∧ publisher = p
  · obtain ⟨rfl, rfl, rfl⟩ := hnew
    exact hfaulty rfl hr.ne'
  · rw [if_neg hnew] at hvoted
    exact h.later r p hr hvoted

/-- A pending round stays pending with a submission that does not reach the threshold. -/
theorem Pending.recorded (h : Pending asset round config prices s)
    (hrecorded : Recorded publisher asset' round' data s s') (hnext : s'.latest asset < round)
    (hshort : asset' = asset → round' = round →
      (s.submissions asset round).length + 1 < config.threshold)
    (hprice : asset' = asset → round' = round → data.price.toInt ∈ prices) :
    Pending asset round config prices s' := by
  have hsubmissions : s'.submissions asset round =
      (s.record publisher asset' round' data).submissions asset round := by
    unfold Storage.submissions
    rw [hrecorded.submissions]
  rw [submissions_record] at hsubmissions
  by_cases hround : asset' = asset ∧ round' = round
  · rw [if_pos hround] at hsubmissions
    refine ⟨hnext, ?_, fun d hd => ?_⟩
    · rw [hsubmissions, List.length_append]
      exact hshort hround.1 hround.2
    · rw [hsubmissions] at hd
      rcases List.mem_append.mp hd with hd | hd
      · exact h.close d hd
      · rw [List.mem_singleton.mp hd]
        exact hprice hround.1 hround.2
  · rw [if_neg hround] at hsubmissions
    exact ⟨hnext, hsubmissions ▸ h.short, hsubmissions ▸ h.close⟩

theorem Voted.recorded (h : Voted asset round s publisher')
    (hrecorded : Recorded publisher asset' round' data s s')
    (hlatest : s.latestRound asset = some round → s'.latestRound asset = some round) :
    Voted asset round s' publisher' := by
  refine h.imp hlatest fun h => ?_
  rw [hrecorded.submission, submission_record]
  split_ifs
  · exact Option.some_ne_none _
  · exact h

theorem Recorded.voted (h : Recorded publisher asset round data s s') :
    Voted asset round s' publisher := by
  refine Or.inr ?_
  rw [h.submission, submission_record, if_pos ⟨rfl, rfl, rfl⟩]
  exact Option.some_ne_none _

end Recorded

/-- A later round has too few submissions to be published. -/
theorem Course.short (h : Course s₀ asset round config faulty s)
    (hfew : faulty.card < config.threshold) {r : ℕ} (hr : round < r) {publisher : Address}
    (hp : publisher ∈ faulty) (hunused : s.submission (asset, r, publisher) = none) :
    (s.submissions asset r).length + 1 < config.threshold := by
  obtain ⟨steps, hlogged⟩ := h.logged
  have hlt := hlogged.balloted.length_lt (fun q hq => h.later r q hr hq) hp hunused
  omega

/-- The phases of a round. -/
def Phase (asset : OracleAsset) (round : ℕ) (config : CommitteeConfig) (prices : Set ℤ)
    (s : Storage) : Prop :=
  Pending asset round config prices s ∨ s.latestRound asset = some round

/-- An accepted submission leaves a round pending or publishes it, and no later one. -/
theorem Course.phase (h : Course s₀ asset round config faulty s)
    (hfew : faulty.card < config.threshold) (hphase : Phase asset round config prices s)
    {env : OracleEnv} {publisher : Address} {asset' : OracleAsset} {round' : ℕ} {data : PriceData}
    (hadmissible : Admissible env s publisher asset' round' data config)
    (hfaulty : asset' = asset → round' ≠ round → publisher ∈ faulty)
    (hprice : asset' = asset → round' = round → data.price.toInt ∈ prices)
    (hdone : (s.submissions asset' round').length + 1 < config.threshold ∧
        s' = s.record publisher asset' round' data ∨
      config.threshold ≤ (s.submissions asset' round').length + 1 ∧ ∃ median,
        s' = (s.record publisher asset' round' data).publish asset' round' median) :
    Recorded publisher asset' round' data s s' ∧ Phase asset round config prices s' ∧
      (s.latestRound asset = some round → s'.latestRound asset = some round) := by
  rcases hdone with ⟨hshort, rfl⟩ | ⟨hreached, median, rfl⟩
  · have hrecorded : Recorded publisher asset' round' data s
        (s.record publisher asset' round' data) := ⟨rfl, rfl, rfl, rfl⟩
    refine ⟨hrecorded, hphase.imp (fun hp => hp.recorded hrecorded hp.next ?_ hprice) id, id⟩
    rintro rfl rfl
    exact hshort
  have hrecorded : Recorded publisher asset' round' data s
      ((s.record publisher asset' round' data).publish asset' round' median) := ⟨rfl, rfl, rfl, rfl⟩
  have hlatest := latestRound_publish (s.record publisher asset' round' data) asset' asset round'
    median
  refine ⟨hrecorded, ?_⟩
  by_cases hasset : asset' = asset
  · subst hasset
    rw [if_pos rfl] at hlatest
    have hnext := hadmissible.next
    rcases lt_trichotomy round' round with hlt | rfl | hgt
    · -- an older round
      have hopen : s.latestRound asset' ≠ some round := latestRound_ne (hnext.trans hlt)
      refine ⟨Or.inl ?_, fun he => absurd he hopen⟩
      have hpending := hphase.resolve_right hopen
      refine hpending.recorded hrecorded ?_ (fun _ he => absurd he hlt.ne) hprice
      unfold Storage.latest
      rw [hlatest]
      exact hlt
    · exact ⟨Or.inr hlatest, fun _ => hlatest⟩
    · have hshort := h.short hfew hgt (hfaulty rfl hgt.ne') hadmissible.unused
      omega
  · rw [if_neg hasset] at hlatest
    refine ⟨hphase.imp (fun hp => ?_) hlatest.trans, hlatest.trans⟩
    refine hp.recorded hrecorded ?_ (fun he => absurd he hasset) hprice
    unfold Storage.latest
    rw [hlatest]
    exact hp.next

/-- **The step lemma.** What an accepted submission does to the course of a round. -/
theorem Course.step (h : Course s₀ asset round config faulty s)
    (hfew : faulty.card < config.threshold) (hsubmits : tx.Submits)
    (hhonest : ∀ vote ∈ tx.vote asset, vote.1 ∉ faulty → vote.2.1 = round)
    (hstep : PriceOracle.step s tx = .ok s') (hphase : Phase asset round config prices s)
    (hprices : ∀ vote ∈ ballots asset round ⟨s, tx, s'⟩, vote.2.price.toInt ∈ prices) :
    Course s₀ asset round config faulty s' ∧ Phase asset round config prices s' ∧
      (∀ publisher, Voted asset round s publisher → Voted asset round s' publisher) ∧
      ∀ vote ∈ tx.vote asset, vote.2.1 = round → Voted asset round s' vote.1 := by
  obtain ⟨steps, hlogged⟩ := h.logged
  have hlogged' : ∃ steps, Logged s' steps := ⟨_, logged_step (x := ⟨s, tx, s'⟩) hstep hlogged⟩
  have hrun := step_eq_ok.mp hstep
  obtain ⟨signers, now, call⟩ := tx
  cases call with
  | submitPrice publisher asset' round' price timestamp =>
    obtain ⟨config', hadmissible, hdone⟩ := returns_submitPrice.mp hrun
    obtain rfl : config' = config :=
      Option.some.inj (hadmissible.configured.symm.trans h.configured)
    have hvote :
        Tx.vote asset ⟨signers, now, .submitPrice publisher asset' round' price timestamp⟩ =
          if asset' = asset ∧ publisher ∈ signers then
            some (publisher, round', ⟨price, timestamp⟩) else none := rfl
    have hfaulty (hasset : asset' = asset) (hround : round' ≠ round) : publisher ∈ faulty := by
      by_contra hnot
      exact hround (hhonest _ (hvote.trans (if_pos ⟨hasset, hadmissible.signed⟩)) hnot)
    have hprice (hasset : asset' = asset) (hround : round' = round) : price.toInt ∈ prices := by
      refine hprices (publisher, ⟨price, timestamp⟩) ?_
      rw [ballots_submit rfl, if_pos ⟨hasset, hround⟩]
      exact List.mem_singleton_self _
    obtain ⟨hrecorded, hphase', hlatest⟩ := h.phase hfew hphase hadmissible hfaulty hprice
      (hdone.imp id fun hdone => ⟨hdone.1, hdone.2.choose, hdone.2.choose_spec.2⟩)
    refine ⟨h.recorded hrecorded hlogged' hfaulty, hphase',
      fun q hq => hq.recorded hrecorded hlatest, fun vote hmem hround => ?_⟩
    rw [hvote] at hmem
    by_cases hasset : asset' = asset ∧ publisher ∈ signers
    · rw [if_pos hasset] at hmem
      obtain rfl := Option.some.inj hmem
      obtain rfl := hasset.1
      obtain rfl : round' = round := hround
      exact hrecorded.voted
    · rw [if_neg hasset] at hmem
      cases hmem
  | _ => exact hsubmits.elim

/-- An honest submission is rejected only if the round is published or it is a second one. -/
theorem Course.rejects (h : Course s₀ asset round config faulty s) (hvalid : config.Valid)
    (hphase : Phase asset round config prices s) (hclose : Close config.maxDeviationBps prices)
    {e : String} (hstep : PriceOracle.step s tx = .error e) {vote : Address × ℕ × PriceData}
    (hvote : vote ∈ tx.vote asset) (hproper : Proper s₀ config round tx.timestamp vote)
    (hprice : vote.2.2.price.toInt ∈ prices) : Voted asset round s vote.1 := by
  rcases hphase with hpending | hpublished
  · refine Or.inr fun hunused => ?_
    obtain ⟨signers, now, call⟩ := tx
    cases call with
    | submitPrice publisher asset' round' price timestamp =>
      have hvote : vote ∈ if asset' = asset ∧ publisher ∈ signers then
        some (publisher, round', ⟨price, timestamp⟩) else none := hvote
      split_ifs at hvote with hasset
      · obtain rfl := Option.some.inj hvote
        obtain ⟨rfl, hsigned⟩ := hasset
        obtain rfl : round' = round := hproper.round
        obtain ⟨s', hreturns⟩ := h.accepts ⟨signers, now⟩ hvalid hpending hclose hsigned hproper
          hprice hunused
        have hok : PriceOracle.step s ⟨signers, now, .submitPrice publisher asset' round' price
          timestamp⟩ = .ok s' := step_eq_ok.mpr hreturns
        rw [hok] at hstep
        cases hstep
      · cases hvote
    | _ => cases hvote
  · exact Or.inl hpublished

/-- **The run lemma.** In the course of a round every honest submission is recorded, or the round is
published. -/
theorem Course.run (hvalid : config.Valid) (hfew : faulty.card < config.threshold)
    (hclose : Close config.maxDeviationBps prices) {as : List Tx}
    (h : Course s₀ asset round config faulty s) (hphase : Phase asset round config prices s)
    (hsubmits : ∀ tx ∈ as, tx.Submits)
    (hproper : ∀ tx ∈ as, ∀ vote ∈ tx.vote asset, vote.1 ∉ faulty →
      Proper s₀ config round tx.timestamp vote ∧ vote.2.2.price.toInt ∈ prices)
    (hprices : ∀ x ∈ accepted PriceOracle.step s as, ∀ vote ∈ ballots asset round x,
      vote.2.price.toInt ∈ prices) :
    let s' := final PriceOracle.step s as
    Course s₀ asset round config faulty s' ∧ Phase asset round config prices s' ∧
      (∀ publisher, Voted asset round s publisher → Voted asset round s' publisher) ∧
      ∀ tx ∈ as, ∀ vote ∈ tx.vote asset, vote.1 ∉ faulty → Voted asset round s' vote.1 := by
  induction as generalizing s with
  | nil => exact ⟨h, hphase, fun _ hq => hq, fun _ htx => absurd htx List.not_mem_nil⟩
  | cons tx as ih =>
    have hrest : ∀ tx' ∈ as, tx' ∈ tx :: as := fun _ htx => List.mem_cons_of_mem _ htx
    cases hstep : PriceOracle.step s tx with
    | error e =>
      rw [accepted_cons_error hstep] at hprices
      rw [final_cons_error hstep]
      obtain ⟨hcourse, hphase', hmono, hvoted⟩ := ih h hphase
        (fun tx' htx => hsubmits tx' (hrest tx' htx)) (fun tx' htx => hproper tx' (hrest tx' htx))
        hprices
      refine ⟨hcourse, hphase', hmono, fun tx' htx vote hvote hhonest => ?_⟩
      rcases List.mem_cons.mp htx with rfl | htx
      · obtain ⟨hp, hprice⟩ := hproper _ List.mem_cons_self vote hvote hhonest
        exact hmono _ (h.rejects hvalid hphase hclose hstep hvote hp hprice)
      · exact hvoted tx' htx vote hvote hhonest
    | ok s₁ =>
      rw [accepted_cons_ok hstep] at hprices
      rw [final_cons_ok hstep]
      obtain ⟨hcourse₁, hphase₁, hmono₁, hvoted₁⟩ := h.step hfew (hsubmits tx List.mem_cons_self)
        (fun vote hvote hhonest => (hproper tx List.mem_cons_self vote hvote hhonest).1.round)
        hstep hphase (hprices _ List.mem_cons_self)
      obtain ⟨hcourse, hphase', hmono, hvoted⟩ := ih hcourse₁ hphase₁
        (fun tx' htx => hsubmits tx' (hrest tx' htx)) (fun tx' htx => hproper tx' (hrest tx' htx))
        fun x hx => hprices x (List.mem_cons_of_mem _ hx)
      refine ⟨hcourse, hphase', fun q hq => hmono q (hmono₁ q hq),
        fun tx' htx vote hvote hhonest => ?_⟩
      rcases List.mem_cons.mp htx with rfl | htx
      · have hround := (hproper _ List.mem_cons_self vote hvote hhonest).1.round
        exact hmono _ (hvoted₁ vote hvote hround)
      · exact hvoted tx' htx vote hvote hhonest

end Course

/-! ## A faulty publisher -/

def faultyPublisher : Address := .account 3

/-- The committee of two, and a third publisher. -/
def largerCommittee : List Tx :=
  sampleCommittee ++ [⟨[sampleAdmin], 1000, .setPublisher sampleAdmin faultyPublisher true⟩]

/-- The faulty publisher submits an outlier first. -/
def outlierSchedule : List Tx :=
  [submission faultyPublisher 1 9000 1000 1000, submission sampleAdmin 1 5000 1000 1000,
    submission samplePublisher 1 5010 1000 1000]

section Decidable

instance (bps median price : ℤ) : Decidable (Within bps median price) :=
  inferInstanceAs (Decidable (_ ∧ _))

instance : (tx : Tx) → Decidable tx.Submits
  | ⟨_, _, .submitPrice ..⟩ => .isTrue trivial
  | ⟨_, _, .init ..⟩ | ⟨_, _, .setUpgradeAuthority ..⟩ | ⟨_, _, .rotateUpgradeAuthority ..⟩
  | ⟨_, _, .configureCommittee ..⟩ | ⟨_, _, .setPublisher ..⟩ | ⟨_, _, .writePrice ..⟩ =>
    .isFalse id

instance (s : Storage) (config : CommitteeConfig) (round now : ℕ)
    (vote : Address × ℕ × PriceData) : Decidable (Proper s config round now vote) :=
  decidable_of_iff (vote.2.1 = round ∧ s.publisher vote.1 = some true ∧
      0 < vote.2.2.price.toInt ∧ vote.2.2.timestamp ≤ now ∧
      now - vote.2.2.timestamp ≤ config.maxTimestampAge)
    ⟨fun ⟨h₁, h₂, h₃, h₄, h₅⟩ => ⟨h₁, h₂, h₃, h₄, h₅⟩,
      fun h => ⟨h.round, h.authorised, h.positive, h.past, h.fresh⟩⟩

end Decidable

/-- **An outlier blocks its round.** One publisher of three is faulty, and keeps the two others from
publishing the round with close and fresh prices. -/
theorem outlier_blocks :
    ¬ ∀ (as₀ : List Tx) (asset : OracleAsset) (round : ℕ) (config : CommitteeConfig)
      (faulty quorum : Finset Address) (as : List Tx),
      Schedule (final step Storage.blank as₀) asset round config faulty quorum as →
      (final step (final step Storage.blank as₀) as).latestRound asset = some round := by
  intro h
  have hschedule : Schedule (final step Storage.blank largerCommittee) sampleSymbol 1 ⟨2, 100, 300⟩
      {faultyPublisher} {sampleAdmin, samplePublisher} outlierSchedule := by
    refine ⟨by decide +kernel, by decide +kernel, by decide +kernel, fun r p _ h => absurd rfl h,
      by decide +kernel, by decide +kernel, ?_, by decide +kernel, by decide +kernel⟩
    refine close_of_list (l := [5000, 5010]) ?_ (by decide +kernel)
    rintro p ⟨tx, htx, vote, hvote, hhonest, rfl⟩
    revert tx vote
    decide +kernel
  exact absurd (h _ _ _ _ _ _ _ hschedule) (by decide +kernel)

/-- **The round is published.** Fewer publishers than the threshold are faulty, and the prices that
the others submit and those that are stored for the round are close to each other. Then the round
is published, whatever else the faulty publishers submit, to this round or to later ones and in
whatever order. It is the latest round then, and only faulty publishers have submitted to later rounds, so
that these are as open as this one was. -/
theorem round_published (as₀ : List Tx) (asset : OracleAsset) (round : ℕ)
    (config : CommitteeConfig) (faulty quorum : Finset Address) (as : List Tx)
    (h : Schedule (final step Storage.blank as₀) asset round config faulty quorum as)
    (hclose : Close config.maxDeviationBps (honestPrices asset faulty as ∪
      storedPrices (final step Storage.blank as₀) asset round as)) :
    let s := final step Storage.blank as₀
    let s' := final step s as
    s'.latestRound asset = some round ∧
      (∃ x ∈ accepted step s as, ∃ data, (round, data) ∈ published asset x) ∧
      ∀ r publisher, round < r → s'.submission (asset, r, publisher) ≠ none →
        publisher ∈ faulty := by
  intro s s'
  have hvalid : config.Valid := config_valid as₀ h.configured
  have hlogged : Logged s (accepted step Storage.blank as₀) := logged_run as₀
  have hcourse : Course s asset round config faulty s :=
    ⟨⟨_, hlogged⟩, h.configured, rfl, fun r p hr => h.early r p hr.le⟩
  have hpending : Pending asset round config (honestPrices asset faulty as ∪
      storedPrices s asset round as) s := by
    refine ⟨h.next, ?_, fun data hdata => Or.inr (Or.inl (List.mem_map_of_mem hdata))⟩
    exact (hlogged.balloted.length_le (h.early round · le_rfl)).trans_lt h.few
  obtain ⟨hcourse', hphase, -, hvoted⟩ := hcourse.run hvalid h.few hclose (Or.inl hpending)
    h.submits
    (fun tx htx vote hvote hhonest => ⟨h.proper tx htx vote hvote hhonest,
      Or.inl ⟨tx, htx, vote, hvote, hhonest, rfl⟩⟩)
    fun x hx vote hvote => Or.inr (Or.inr ⟨x, hx, vote, hvote, rfl⟩)
  have hpublished : s'.latestRound asset = some round := by
    refine hphase.resolve_left fun hpending' => ?_
    obtain ⟨steps, hlogged'⟩ := hcourse'.logged
    have hquorum : quorum.card ≤ (s'.submissions asset round).length := by
      refine hlogged'.balloted.card_le fun p hp => ?_
      obtain ⟨hhonest, tx, htx, vote, hvote, rfl⟩ := h.voted p hp
      exact (hvoted tx htx vote hvote hhonest).resolve_left (latestRound_ne hpending'.next)
    exact absurd (h.enough.trans hquorum) (not_le.mpr hpending'.short)
  refine ⟨hpublished, ?_, hcourse'.later⟩
  obtain ⟨x, hx, hpre, hpost⟩ := exists_flip
    (P := fun s : Storage => s.latestRound asset = some round) (latestRound_ne h.next) hpublished
  obtain ⟨hstep, hmem⟩ := accepted_ok x hx
  obtain ⟨data, hdata⟩ := published_of_flip hstep (h.submits _ hmem) hpre hpost
  exact ⟨x, hx, data, hdata⟩

/-- The faulty publisher submits ahead of time, and a close price for the round. -/
def aheadSchedule : List Tx :=
  [submission faultyPublisher 7 9000 1000 1000, submission faultyPublisher 1 5020 1000 1000,
    submission samplePublisher 1 5010 1000 1000, submission sampleAdmin 1 5000 1000 1000]

theorem ahead_published :
    (final step (final step Storage.blank largerCommittee) aheadSchedule).latestRound sampleSymbol =
      some 1 := by
  have hschedule : Schedule (final step Storage.blank largerCommittee) sampleSymbol 1 ⟨2, 100, 300⟩
      {faultyPublisher} {sampleAdmin, samplePublisher} aheadSchedule := by
    refine ⟨by decide +kernel, by decide +kernel, by decide +kernel, fun r p _ h => absurd rfl h,
      by decide +kernel, by decide +kernel, ?_, by decide +kernel, by decide +kernel⟩
    refine close_of_list (l := [5000, 5010, 5020]) ?_ (by decide +kernel)
    rintro p ⟨tx, htx, vote, hvote, hhonest, rfl⟩
    revert tx vote
    decide +kernel
  have h := round_published largerCommittee sampleSymbol 1 ⟨2, 100, 300⟩ {faultyPublisher}
    {sampleAdmin, samplePublisher} aheadSchedule hschedule
  refine (h (close_of_list (l := [5000, 5010, 5020]) ?_ (by decide +kernel))).1
  rintro p (⟨tx, htx, vote, hvote, hhonest, rfl⟩ | hp | ⟨x, hx, vote, hvote, rfl⟩)
  · revert tx vote
    decide +kernel
  · exact absurd hp List.not_mem_nil
  · revert x vote
    decide +kernel

end Pnlx.PriceOracle
