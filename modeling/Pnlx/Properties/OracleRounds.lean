import Pnlx.Contracts.PriceOracle
import Pnlx.Lib.Runs

/-!
# The rounds of the price oracle

A run of the oracle is a log of what its steps have submitted (`ballots`), published (`published`)
and added to the history (`recorded`). `Logged` says that the storage is what the log makes of it.

1. `logged_step`, `logged_run`: the invariant.
2. `oracle_aggregation`: what is published is the median of the round, whatever the order of its
   submissions; rounds increase; the history is the end of the log.
3. `oracle_freshness`: what is known of the timestamps of a published price, and a run that
   publishes an old one.
-/

namespace Pnlx.PriceOracle

open Program Runs

/-! ## The log -/

/-- What a step submits to a round of an asset. -/
def ballots (asset : OracleAsset) (round : ℕ) (x : Step Storage Tx) : List (Address × PriceData) :=
  match x.act.call with
  | .submitPrice publisher asset' round' price timestamp =>
    if asset' = asset ∧ round' = round then [(publisher, ⟨price, timestamp⟩)] else []
  | _ => []

/-- The round of an asset that a step publishes, with the published price. -/
def published (asset : OracleAsset) (x : Step Storage Tx) : List (ℕ × PriceData) :=
  match x.act.call with
  | .submitPrice _ asset' round _ _ =>
    if asset' = asset ∧ x.post.latestRound asset = some round then
      (x.post.price asset).toList.map fun data => (round, data)
    else []
  | _ => []

/-- The price of an asset that a step adds to the history. -/
def recorded (asset : OracleAsset) (x : Step Storage Tx) : List PriceData :=
  match x.act.call with
  | .writePrice _ asset' price timestamp => if asset' = asset then [⟨price, timestamp⟩] else []
  | _ => (published asset x).map Prod.snd

/-- The stored submissions are those of the steps, one for each publisher of a round. -/
structure Balloted (s : Storage) (steps : List (Step Storage Tx)) : Prop where
  submissions : ∀ asset round,
    s.submissions asset round = (steps.flatMap (ballots asset round)).map Prod.snd
  submission : ∀ asset round publisher data, s.submission (asset, round, publisher) = some data ↔
    (publisher, data) ∈ steps.flatMap (ballots asset round)
  distinct : ∀ asset round, ((steps.flatMap (ballots asset round)).map Prod.fst).Nodup

/-- The published rounds increase up to the latest one. -/
structure Rounded (s : Storage) (steps : List (Step Storage Tx)) : Prop where
  latest : ∀ asset, ∀ round ∈ (steps.flatMap (published asset)).map Prod.fst,
    round ≤ s.latest asset
  increasing : ∀ asset, ((steps.flatMap (published asset)).map Prod.fst).Pairwise (· < ·)

/-- The kept prices are the last ones of the steps. -/
structure Kept (s : Storage) (steps : List (Step Storage Tx)) : Prop where
  history : ∀ asset, s.history asset = (steps.flatMap (recorded asset)).rtake maxRecords
  price : ∀ asset, s.price asset = (steps.flatMap (recorded asset)).getLast?

/-- The storage is what the steps have made of it. -/
structure Logged (s : Storage) (steps : List (Step Storage Tx)) : Prop where
  balloted : Balloted s steps
  rounded : Rounded s steps
  kept : Kept s steps

theorem logged_blank : Logged Storage.blank [] where
  balloted := ⟨fun _ _ => rfl,
    fun _ _ _ _ => ⟨fun h => (by cases h), fun h => absurd h List.not_mem_nil⟩,
    fun _ _ => List.nodup_nil⟩
  rounded := ⟨fun _ _ h => absurd h List.not_mem_nil, fun _ => List.Pairwise.nil⟩
  kept := ⟨fun _ => rfl, fun _ => rfl⟩

/-! ## What the steps change -/

/-- The submissions and the prices stay. -/
structure SameFeeds (s s' : Storage) : Prop where
  submission : s'.submission = s.submission
  roundSubmissions : s'.roundSubmissions = s.roundSubmissions
  latestRound : s'.latestRound = s.latestRound
  price : s'.price = s.price
  prices : s'.prices = s.prices

instance : Std.Refl SameFeeds := ⟨fun _ => ⟨rfl, rfl, rfl, rfl, rfl⟩⟩

instance : IsTrans Storage SameFeeds :=
  ⟨fun _ _ _ h h' => ⟨h'.submission.trans h.submission,
    h'.roundSubmissions.trans h.roundSubmissions, h'.latestRound.trans h.latestRound,
    h'.price.trans h.price, h'.prices.trans h.prices⟩⟩

section Frames

variable {R : Storage → Storage → Prop} [Std.Refl R]

instance {α : Type} {key : Storage → α} : Respects R (get key) :=
  Respects.of_eq fun h => (returns_get.mp h).2

instance {α : Type} {key : Storage → Option α} {message : String} :
    Respects R (required key message) := Respects.of_eq fun h => (returns_required.mp h).2

instance {address : Address} : Respects R (requireAuth address) :=
  Respects.of_eq fun h => (returns_requireAuth.mp h).2

instance {admin : Address} : Respects R (requireAdmin admin) :=
  Respects.of_eq fun h => (returns_requireAdmin.mp h).2

end Frames

/-- The call is one of the administration, which no round and no price depends on. -/
def Call.Administers : Call → Prop
  | .writePrice .. | .submitPrice .. => False
  | _ => True

theorem sameFeeds_of_administers {env : OracleEnv} {s s' : Storage} {call : Call}
    (h : Returns call.run env s () s') (hcall : call.Administers) : SameFeeds s s' := by
  unfold Call.run at h
  have hinit {admin : Address} {decimals : ℕ} : Respects SameFeeds (init admin decimals) := by
    unfold init
    repeat refine Respects.andThen inferInstance fun _ => ?_
    exact Respects.update fun _ => ⟨rfl, rfl, rfl, rfl, rfl⟩
  have hset {authority : Address} : Respects SameFeeds (setUpgradeAuthority authority) := by
    unfold setUpgradeAuthority
    repeat refine Respects.andThen inferInstance fun _ => ?_
    exact Respects.update fun _ => ⟨rfl, rfl, rfl, rfl, rfl⟩
  have hrotate {authority : Address} : Respects SameFeeds (rotateUpgradeAuthority authority) := by
    unfold rotateUpgradeAuthority
    repeat refine Respects.andThen inferInstance fun _ => ?_
    exact Respects.update fun _ => ⟨rfl, rfl, rfl, rfl, rfl⟩
  have hconfigure {admin : Address} {threshold age bps : ℕ} :
      Respects SameFeeds (configureCommittee admin threshold age bps) := by
    unfold configureCommittee validateCommitteeConfig
    repeat refine Respects.andThen inferInstance fun _ => ?_
    exact Respects.update fun _ => ⟨rfl, rfl, rfl, rfl, rfl⟩
  have hpublisher {admin publisher : Address} {enabled : Bool} :
      Respects SameFeeds (setPublisher admin publisher enabled) := by
    unfold setPublisher
    repeat refine Respects.andThen inferInstance fun _ => ?_
    exact Respects.update fun _ => ⟨rfl, rfl, rfl, rfl, rfl⟩
  cases call with
  | init => exact hinit.rel h
  | setUpgradeAuthority => exact hset.rel h
  | rotateUpgradeAuthority => exact hrotate.rel h
  | configureCommittee => exact hconfigure.rel h
  | setPublisher => exact hpublisher.rel h
  | writePrice | submitPrice => exact hcall.elim

/-- The last records are kept when another one is added to those that were kept. -/
theorem rtake_append_rtake {α : Type*} (l : List α) (a : α) (n : ℕ) :
    (l.rtake n ++ [a]).rtake n = (l ++ [a]).rtake n := by
  cases n with
  | zero => rw [List.rtake_zero, List.rtake_zero]
  | succ n =>
    rw [List.rtake_concat_succ, List.rtake_concat_succ, List.rtake_eq_reverse_take_reverse,
      List.rtake_eq_reverse_take_reverse, List.rtake_eq_reverse_take_reverse, List.reverse_reverse,
      List.take_take, min_eq_left (Nat.le_succ n)]

theorem rtake_rtake {α : Type*} (l : List α) {m n : ℕ} (h : m ≤ n) :
    (l.rtake n).rtake m = l.rtake m := by
  rw [List.rtake_eq_reverse_take_reverse, List.rtake_eq_reverse_take_reverse,
    List.rtake_eq_reverse_take_reverse, List.reverse_reverse, List.take_take, min_eq_left h]

section Log

variable {s s' : Storage} {x : Step Storage Tx} {l : List (Step Storage Tx)}

theorem flatMap_concat {β : Type*} (f : Step Storage Tx → List β) (l : List (Step Storage Tx))
    (x : Step Storage Tx) : (l ++ [x]).flatMap f = l.flatMap f ++ f x := by
  rw [List.flatMap_append, List.flatMap_singleton]

theorem Balloted.same (h : Balloted s l) (hx : ∀ asset round, ballots asset round x = [])
    (hsubmission : s'.submission = s.submission)
    (hsubmissions : s'.roundSubmissions = s.roundSubmissions) : Balloted s' (l ++ [x]) := by
  have hlog (asset : OracleAsset) (round : ℕ) :
      (l ++ [x]).flatMap (ballots asset round) = l.flatMap (ballots asset round) := by
    rw [flatMap_concat, hx, List.append_nil]
  refine ⟨fun asset round => ?_, fun asset round publisher data => ?_, fun asset round => ?_⟩
  · unfold Storage.submissions
    rw [hlog, hsubmissions]
    exact h.submissions asset round
  · rw [hlog, hsubmission]
    exact h.submission asset round publisher data
  · rw [hlog]
    exact h.distinct asset round

theorem Balloted.record (h : Balloted s l) {publisher : Address} {asset : OracleAsset} {round : ℕ}
    {data : PriceData}
    (hx : ∀ asset' round', ballots asset' round' x =
      if asset = asset' ∧ round = round' then [(publisher, data)] else [])
    (hunused : s.submission (asset, round, publisher) = none)
    (hsubmission : s'.submission = (s.record publisher asset round data).submission)
    (hsubmissions : s'.roundSubmissions = (s.record publisher asset round data).roundSubmissions) :
    Balloted s' (l ++ [x]) := by
  refine ⟨fun asset' round' => ?_, fun asset' round' publisher' data' => ?_,
    fun asset' round' => ?_⟩
  · rw [flatMap_concat, hx, List.map_append, ← h.submissions]
    show (s'.roundSubmissions (asset', round')).getD [] = _
    rw [hsubmissions]
    show (s.record publisher asset round data).submissions asset' round' = _
    rw [submissions_record]
    by_cases hround : asset = asset' ∧ round = round'
    · rw [if_pos hround, if_pos hround, List.map_singleton]
    · rw [if_neg hround, if_neg hround, List.map_nil, List.append_nil]
  · rw [flatMap_concat, hx, hsubmission, submission_record, List.mem_append, ← h.submission]
    by_cases hround : asset = asset' ∧ round = round'
    · obtain ⟨rfl, rfl⟩ := hround
      rw [if_pos (⟨rfl, rfl⟩ : asset = asset ∧ round = round), List.mem_singleton, Prod.mk.injEq]
      by_cases hp : publisher = publisher'
      · subst hp
        rw [if_pos ⟨rfl, rfl, rfl⟩, hunused, Option.some.injEq]
        constructor
        · exact fun he => Or.inr ⟨rfl, he.symm⟩
        · rintro (he | he)
          · cases he
          · exact he.2.symm
      · rw [if_neg fun hand => hp hand.2.2]
        exact ⟨Or.inl, fun he => he.elim id fun he => absurd he.1.symm hp⟩
    · rw [if_neg hround, if_neg fun hand => hround ⟨hand.1, hand.2.1⟩]
      exact ⟨Or.inl, fun he => he.elim id fun he => absurd he List.not_mem_nil⟩
  · rw [flatMap_concat, hx, List.map_append]
    by_cases hround : asset = asset' ∧ round = round'
    · obtain ⟨rfl, rfl⟩ := hround
      rw [if_pos ⟨rfl, rfl⟩, List.map_singleton]
      refine List.nodup_append.mpr ⟨h.distinct asset round, List.nodup_singleton _, ?_⟩
      intro p hp q hq
      rw [List.mem_singleton] at hq
      rintro rfl
      obtain ⟨⟨p', d⟩, hmem, rfl⟩ := List.mem_map.mp hp
      have hstored := (h.submission asset round p' d).mpr hmem
      have heq : p' = publisher := hq
      rw [heq, hunused] at hstored
      cases hstored
    · rw [if_neg hround, List.map_nil, List.append_nil]
      exact h.distinct asset' round'

theorem Rounded.same (h : Rounded s l) (hx : ∀ asset, published asset x = [])
    (hlatest : s'.latestRound = s.latestRound) : Rounded s' (l ++ [x]) := by
  have hlog (asset : OracleAsset) :
      (l ++ [x]).flatMap (published asset) = l.flatMap (published asset) := by
    rw [flatMap_concat, hx, List.append_nil]
  refine ⟨fun asset => ?_, fun asset => ?_⟩
  · unfold Storage.latest
    rw [hlog, hlatest]
    exact h.latest asset
  · rw [hlog]
    exact h.increasing asset

theorem Rounded.publish (h : Rounded s l) {asset : OracleAsset} {round : ℕ} {data : PriceData}
    (hx : ∀ asset', published asset' x = if asset = asset' then [(round, data)] else [])
    (hnext : s.latest asset < round)
    (hlatest : ∀ asset', s'.latestRound asset' =
      if asset = asset' then some round else s.latestRound asset') : Rounded s' (l ++ [x]) := by
  refine ⟨fun asset' => ?_, fun asset' => ?_⟩
  · rw [flatMap_concat, hx, List.map_append]
    unfold Storage.latest
    rw [hlatest]
    by_cases ha : asset = asset'
    · subst ha
      rw [if_pos rfl, if_pos rfl, Option.getD_some, List.map_singleton]
      intro r hr
      rcases List.mem_append.mp hr with hr | hr
      · exact (h.latest asset r hr).trans hnext.le
      · exact (List.mem_singleton.mp hr).le
    · rw [if_neg ha, if_neg ha, List.map_nil, List.append_nil]
      exact h.latest asset'
  · rw [flatMap_concat, hx, List.map_append]
    by_cases ha : asset = asset'
    · subst ha
      rw [if_pos rfl, List.map_singleton]
      refine List.pairwise_append.mpr ⟨h.increasing asset, List.pairwise_singleton _ _, ?_⟩
      intro r hr q hq
      rw [List.mem_singleton.mp hq]
      exact (h.latest asset r hr).trans_lt hnext
    · rw [if_neg ha, List.map_nil, List.append_nil]
      exact h.increasing asset'

theorem Kept.same (h : Kept s l) (hx : ∀ asset, recorded asset x = []) (hprice : s'.price = s.price)
    (hprices : s'.prices = s.prices) : Kept s' (l ++ [x]) := by
  have hlog (asset : OracleAsset) :
      (l ++ [x]).flatMap (recorded asset) = l.flatMap (recorded asset) := by
    rw [flatMap_concat, hx, List.append_nil]
  refine ⟨fun asset => ?_, fun asset => ?_⟩
  · unfold Storage.history
    rw [hlog, hprices]
    exact h.history asset
  · rw [hlog, hprice]
    exact h.price asset

theorem Kept.append (h : Kept s l) {asset : OracleAsset} {data : PriceData}
    (hx : ∀ asset', recorded asset' x = if asset = asset' then [data] else [])
    (hprice : s'.price = (s.append asset data).price)
    (hprices : s'.prices = (s.append asset data).prices) : Kept s' (l ++ [x]) := by
  refine ⟨fun asset' => ?_, fun asset' => ?_⟩
  · show (s'.prices asset').getD [] = _
    rw [hprices]
    show (s.append asset data).history asset' = _
    rw [history_append, flatMap_concat, hx, h.history]
    by_cases ha : asset = asset'
    · rw [if_pos ha, if_pos ha, rtake_append_rtake]
    · rw [if_neg ha, if_neg ha, List.append_nil]
  · rw [hprice, price_append, flatMap_concat, hx, h.price]
    by_cases ha : asset = asset'
    · rw [if_pos ha, if_pos ha, List.getLast?_concat]
    · rw [if_neg ha, if_neg ha, List.append_nil]

/-- A submission is recorded; when the threshold is reached its round is published. -/
theorem submit_log {publisher : Address} {asset : OracleAsset} {round : ℕ} {price : I128}
    {time : ℕ} (hx : step x.pre x.act = .ok x.post)
    (hcall : x.act.call = .submitPrice publisher asset round price time) :
    ∃ config, Admissible ⟨x.act.signers, x.act.timestamp⟩ x.pre publisher asset round
        ⟨price, time⟩ config ∧
      ((x.pre.submissions asset round).length + 1 < config.threshold ∧
          x.post = x.pre.record publisher asset round ⟨price, time⟩ ∧
          (∀ asset', published asset' x = []) ∨
        config.threshold ≤ (x.pre.submissions asset round).length + 1 ∧ ∃ data,
          Aggregates (x.pre.submissions asset round ++ [⟨price, time⟩]) config.maxDeviationBps
            x.act.timestamp data ∧
          x.post = (x.pre.record publisher asset round ⟨price, time⟩).publish asset round data ∧
          ∀ asset', published asset' x = if asset = asset' then [(round, data)] else []) := by
  have hrun := step_eq_ok.mp hx
  obtain ⟨s, ⟨signers, timestamp, call⟩, s'⟩ := x
  dsimp only at hrun hcall ⊢
  subst hcall
  obtain ⟨config, hadmissible, ⟨hshort, rfl⟩ | ⟨hreached, data, hdata, rfl⟩⟩ :=
    returns_submitPrice.mp hrun
  · refine ⟨config, hadmissible, Or.inl ⟨hshort, rfl, fun asset' => if_neg ?_⟩⟩
    -- the latest round is still below this one
    rintro ⟨rfl, hlatest⟩
    exact latestRound_ne hadmissible.next hlatest
  · refine ⟨config, hadmissible, Or.inr ⟨hreached, data, hdata, rfl, fun asset' => ?_⟩⟩
    show (if asset = asset' ∧ (Storage.publish _ asset round data).latestRound asset' = some round
      then ((Storage.publish _ asset round data).price asset').toList.map _ else []) = _
    rw [latestRound_publish]
    by_cases ha : asset = asset'
    · rw [if_pos ha, if_pos ⟨ha, rfl⟩, if_pos ha, ha]
      show List.map _ ((Storage.append _ asset' data).price asset').toList = _
      rw [price_append, if_pos rfl]
      rfl
    · rw [if_neg fun hand => ha hand.1, if_neg ha]

theorem recorded_submit {publisher : Address} {asset : OracleAsset} {round : ℕ} {price : I128}
    {time : ℕ} (hcall : x.act.call = .submitPrice publisher asset round price time)
    (asset' : OracleAsset) : recorded asset' x = (published asset' x).map Prod.snd := by
  unfold recorded
  rw [hcall]

theorem ballots_submit {publisher : Address} {asset : OracleAsset} {round : ℕ} {price : I128}
    {time : ℕ} (hcall : x.act.call = .submitPrice publisher asset round price time)
    (asset' : OracleAsset) (round' : ℕ) : ballots asset' round' x =
      if asset = asset' ∧ round = round' then [(publisher, ⟨price, time⟩)] else [] := by
  unfold ballots
  rw [hcall]

/-- **The step lemma.** -/
theorem logged_step (hx : step x.pre x.act = .ok x.post) (h : Logged x.pre l) :
    Logged x.post (l ++ [x]) := by
  have hrun := step_eq_ok.mp hx
  cases hcall : x.act.call with
  | init | setUpgradeAuthority | rotateUpgradeAuthority | configureCommittee | setPublisher =>
    rw [hcall] at hrun
    have hsame := sameFeeds_of_administers hrun trivial
    have hpublished (asset : OracleAsset) : published asset x = [] := by
      unfold published
      rw [hcall]
    refine ⟨h.balloted.same (fun _ _ => ?_) hsame.submission hsame.roundSubmissions,
      h.rounded.same hpublished hsame.latestRound,
      h.kept.same (fun asset => ?_) hsame.price hsame.prices⟩
    · unfold ballots
      rw [hcall]
    · unfold recorded
      rw [hcall]
      exact congrArg (List.map Prod.snd) (hpublished asset)
  | writePrice admin asset price time =>
    rw [hcall] at hrun
    obtain ⟨-, -, hpost⟩ := returns_writePrice.mp hrun
    rw [hpost]
    refine ⟨h.balloted.same (fun _ _ => ?_) rfl rfl, h.rounded.same (fun _ => ?_) rfl,
      h.kept.append (fun _ => ?_) rfl rfl⟩
    · unfold ballots
      rw [hcall]
    · unfold published
      rw [hcall]
    · unfold recorded
      rw [hcall]
  | submitPrice publisher asset round price time =>
    obtain ⟨config, hadmissible, ⟨-, hpost, hpublished⟩ | ⟨-, data, -, hpost, hpublished⟩⟩ :=
      submit_log hx hcall
    · rw [hpost]
      refine ⟨h.balloted.record (ballots_submit hcall) hadmissible.unused rfl rfl,
        h.rounded.same hpublished rfl, h.kept.same (fun asset' => ?_) rfl rfl⟩
      rw [recorded_submit hcall, hpublished, List.map_nil]
    · rw [hpost]
      refine ⟨h.balloted.record (ballots_submit hcall) hadmissible.unused rfl rfl,
        h.rounded.publish hpublished hadmissible.next fun asset' => latestRound_publish ..,
        h.kept.append (fun asset' => ?_) rfl rfl⟩
      rw [recorded_submit hcall, hpublished]
      split_ifs
      · rfl
      · rfl

/-- **The run lemma.** -/
theorem logged_run (as : List Tx) :
    Logged (final step Storage.blank as) (accepted step Storage.blank as) :=
  @final_of_steps _ _ _ step (fun _ => True) Logged (fun _ _ hx _ h => logged_step hx h) _ as []
    logged_blank fun _ _ => trivial

theorem logged_pre {as : List Tx} {before after : List (Step Storage Tx)}
    (h : accepted step Storage.blank as = before ++ x :: after) : Logged x.pre before :=
  @pre_of_steps _ _ _ step (fun _ => True) Logged (fun _ _ hx _ h => logged_step hx h) _ as []
    logged_blank (fun _ _ => trivial) _ _ _ h

/-- What a step publishes is aggregated from the submissions of its round and its own. -/
theorem aggregates_of_published {asset : OracleAsset} {round : ℕ} {data : PriceData}
    (hx : step x.pre x.act = .ok x.post) (h : Balloted x.pre l)
    (hpublished : (round, data) ∈ published asset x) :
    ∃ config, x.pre.committeeConfig = some config ∧
      Aggregates (((l ++ [x]).flatMap (ballots asset round)).map Prod.snd) config.maxDeviationBps
        x.act.timestamp data := by
  cases hcall : x.act.call with
  | submitPrice publisher asset' round' price time =>
    obtain ⟨config, hadmissible, ⟨-, -, hnone⟩ | ⟨-, data', hdata, -, hpost⟩⟩ :=
      submit_log hx hcall
    · rw [hnone] at hpublished
      cases hpublished
    · rw [hpost] at hpublished
      by_cases ha : asset' = asset
      · subst ha
        rw [if_pos rfl, List.mem_singleton] at hpublished
        obtain ⟨rfl, rfl⟩ := Prod.mk.inj hpublished
        refine ⟨config, hadmissible.configured, ?_⟩
        rw [flatMap_concat, ballots_submit hcall, if_pos ⟨rfl, rfl⟩, List.map_append,
          ← h.submissions]
        exact hdata
      · rw [if_neg ha] at hpublished
        cases hpublished
  | _ =>
    unfold published at hpublished
    rw [hcall] at hpublished
    cases hpublished

/-- A submission is one of an authorised publisher, and fresh. -/
theorem admissible_of_ballot {asset : OracleAsset} {round : ℕ} {publisher : Address}
    {data : PriceData} (hx : step x.pre x.act = .ok x.post)
    (h : (publisher, data) ∈ ballots asset round x) :
    ∃ config, Admissible ⟨x.act.signers, x.act.timestamp⟩ x.pre publisher asset round data
      config := by
  cases hcall : x.act.call with
  | submitPrice publisher' asset' round' price time =>
    rw [ballots_submit hcall] at h
    by_cases hround : asset' = asset ∧ round' = round
    · rw [if_pos hround, List.mem_singleton] at h
      obtain ⟨rfl, rfl⟩ := hround
      obtain ⟨rfl, rfl⟩ := Prod.mk.inj h
      obtain ⟨config, hadmissible, -⟩ := submit_log hx hcall
      exact ⟨config, hadmissible⟩
    · rw [if_neg hround] at h
      cases h
  | _ =>
    unfold ballots at h
    rw [hcall] at h
    cases h

/-- A step that publishes a round has submitted to it. -/
theorem ballot_of_published {asset : OracleAsset} {round : ℕ} {data : PriceData}
    (hx : step x.pre x.act = .ok x.post) (h : (round, data) ∈ published asset x) :
    ∃ vote, vote ∈ ballots asset round x := by
  cases hcall : x.act.call with
  | submitPrice publisher asset' round' price time =>
    refine ⟨(publisher, ⟨price, time⟩), ?_⟩
    rw [ballots_submit hcall]
    obtain ⟨_, -, ⟨-, -, hnone⟩ | ⟨-, data', -, -, hpost⟩⟩ := submit_log hx hcall
    · rw [hnone] at h
      cases h
    · rw [hpost] at h
      by_cases ha : asset' = asset
      · rw [if_pos ha, List.mem_singleton] at h
        rw [if_pos ⟨ha, (Prod.mk.inj h).1.symm⟩]
        exact List.mem_singleton_self _
      · rw [if_neg ha] at h
        cases h
  | _ =>
    unfold published at h
    rw [hcall] at h
    cases h

/-- A published price carries the oldest timestamp of its submissions. -/
theorem oldest_of_published {asset : OracleAsset} {round : ℕ} {data : PriceData}
    (hx : step x.pre x.act = .ok x.post) (h : Balloted x.pre l)
    (hpublished : (round, data) ∈ published asset x) :
    (∀ vote ∈ (l ++ [x]).flatMap (ballots asset round), data.timestamp ≤ vote.2.timestamp) ∧
    (∃ vote ∈ (l ++ [x]).flatMap (ballots asset round), data.timestamp = vote.2.timestamp) ∧
    data.timestamp ≤ x.act.timestamp := by
  obtain ⟨config, -, haggregates⟩ := aggregates_of_published hx h hpublished
  have holdest : Oldest x.act.timestamp _ data.timestamp :=
    haggregates.timestamp ▸ oldest_foldl _ _
  have hle : ∀ vote ∈ (l ++ [x]).flatMap (ballots asset round),
      data.timestamp ≤ vote.2.timestamp :=
    fun vote hvote => holdest.le _ (List.mem_map_of_mem hvote)
  refine ⟨hle, ?_, holdest.le_now⟩
  rcases holdest.mem with hnow | ⟨d, hd, he⟩
  · -- the last submission is not newer than the ledger time
    obtain ⟨vote, hvote⟩ := ballot_of_published hx hpublished
    obtain ⟨_, hadmissible⟩ := admissible_of_ballot hx hvote
    have hmem : vote ∈ (l ++ [x]).flatMap (ballots asset round) := by
      rw [flatMap_concat]
      exact List.mem_append_right _ hvote
    exact ⟨vote, hmem, le_antisymm (hle vote hmem) (hnow ▸ hadmissible.past)⟩
  · obtain ⟨vote, hvote, rfl⟩ := List.mem_map.mp hd
    exact ⟨vote, hvote, he⟩

end Log

/-! ## Aggregation -/

/-- **Aggregation is right and does not depend on the order.** In every run, what a step publishes
is the element in the middle of the sorted prices that its round has received up to this step, and
it is the same for every order of these. They are of different publishers, each of them authorised
and signing when it submitted. The published rounds of an asset increase, so that none is published
twice. The history holds the last records, and `prices` returns as many of them as it is asked for.
No call from a reachable storage ends with a missing median. -/
theorem oracle_aggregation (as : List Tx) :
    let s := final step Storage.blank as
    let steps := accepted step Storage.blank as
    (∀ before x after asset round data, steps = before ++ x :: after →
      (round, data) ∈ published asset x →
      let votes := (before ++ [x]).flatMap (ballots asset round)
      (votes.map Prod.fst).Nodup ∧
      (pricesOf (votes.map Prod.snd)).mergeSort[votes.length / 2]? = some data.price.toInt ∧
      ∀ order, order.Perm (votes.map Prod.snd) →
        findMedian order (order.length / 2) order = some data.price) ∧
    (∀ x ∈ steps, ∀ asset round publisher data, (publisher, data) ∈ ballots asset round x →
      x.pre.publisher publisher = some true ∧ publisher ∈ x.act.signers) ∧
    (∀ asset, ((steps.flatMap (published asset)).map Prod.fst).Pairwise (· < ·)) ∧
    (∀ asset, s.history asset = (steps.flatMap (recorded asset)).rtake maxRecords ∧
      ∀ records, 0 < records → records ≤ maxRecords →
        records ≤ (steps.flatMap (recorded asset)).length →
        ∀ env, Returns (prices asset records) env s
          (some ((steps.flatMap (recorded asset)).rtake records)) s) ∧
    ∀ tx, step s tx ≠ .error "missing median" := by
  intro s steps
  have hlogged : Logged s steps := logged_run as
  refine ⟨fun before x after asset round data hsplit hpublished => ?_,
    fun x hx asset round publisher data hballot => ?_, hlogged.rounded.increasing,
    fun asset => ⟨hlogged.kept.history asset, fun records hpos hmax hle env => ?_⟩,
    fun tx h => ?_⟩
  · intro votes
    have hx : step x.pre x.act = .ok x.post :=
      (accepted_ok x (by rw [show accepted step Storage.blank as = _ from hsplit]; simp)).1
    have hpre := logged_pre hsplit
    have hpost := logged_step hx hpre
    obtain ⟨config, -, haggregates⟩ := aggregates_of_published hx hpre.balloted hpublished
    have hne : votes.map Prod.snd ≠ [] := by
      intro hnil
      have hmedian := haggregates.median
      have hvotes : ((before ++ [x]).flatMap (ballots asset round)).map Prod.snd = [] := hnil
      rw [hvotes] at hmedian
      cases hmedian
    refine ⟨hpost.balloted.distinct asset round, ?_, fun order horder => ?_⟩
    · have hsorted := findMedian_sorted hne
      rw [haggregates.median, List.length_map] at hsorted
      exact hsorted.symm
    · obtain ⟨median, hmedian⟩ := exists_findMedian hne
      rw [hmedian order horder, ← hmedian _ (List.Perm.refl _)]
      exact haggregates.median
  · obtain ⟨config, hadmissible⟩ := admissible_of_ballot (accepted_ok x hx).1 hballot
    exact ⟨hadmissible.authorised, hadmissible.signed⟩
  · have hhistory := hlogged.kept.history asset
    have hlength : records ≤ (s.history asset).length := by
      rw [hhistory, List.rtake, List.length_drop]
      omega
    rw [← rtake_rtake _ hmax, ← hhistory]
    exact returns_prices hpos hmax hlength
  · exact median_of_run (fails_of_step h)

/-! ## Timestamps -/

/-- The admin and another publisher make up the committee, and both have to submit. -/
def sampleAdmin : Address := .account 1

def samplePublisher : Address := .account 2

def sampleSymbol : OracleAsset := .other "BTC"

def sampleCommittee : List Tx :=
  [⟨[sampleAdmin], 1000, .init sampleAdmin 8⟩,
    ⟨[sampleAdmin], 1000, .configureCommittee sampleAdmin 2 300 100⟩,
    ⟨[sampleAdmin], 1000, .setPublisher sampleAdmin samplePublisher true⟩]

/-- A submission at the given time of a price with the given timestamp. -/
def submission (publisher : Address) (round : ℕ) (price : I128) (now timestamp : ℕ) : Tx :=
  ⟨[publisher], now, .submitPrice publisher sampleSymbol round price timestamp⟩

/-- The second submission of round 1 comes much later than the first, and round 3 is submitted with
older prices than round 2. -/
def lateRun : List Tx :=
  sampleCommittee ++
    [submission sampleAdmin 1 5000 1000 1000, submission samplePublisher 1 5000 10000 10000,
      submission sampleAdmin 2 5000 10000 9900, submission samplePublisher 2 5000 10000 9900,
      submission sampleAdmin 3 5000 10000 9800, submission samplePublisher 3 5000 10000 9800]

/-- A price is published from a submission that is no longer fresh, and a later price has an older
timestamp than an earlier one. -/
theorem not_fresh_at_publication :
    ¬ (∀ as : List Tx, (as.map Tx.timestamp).Pairwise (· ≤ ·) →
      (∀ x ∈ accepted step Storage.blank as, ∀ y ∈ accepted step Storage.blank as,
        ∀ asset round data vote config, (round, data) ∈ published asset x →
          vote ∈ ballots asset round y → x.pre.committeeConfig = some config →
          x.act.timestamp - vote.2.timestamp ≤ config.maxTimestampAge)) ∧
    ¬ (∀ as : List Tx, (as.map Tx.timestamp).Pairwise (· ≤ ·) →
      ∀ asset, (((accepted step Storage.blank as).flatMap (published asset)).map
        (·.2.timestamp)).Pairwise (· ≤ ·)) := by
  refine ⟨fun h => ?_, fun h => ?_⟩
  · have hstale : ∃ x ∈ accepted step Storage.blank lateRun,
        ∃ y ∈ accepted step Storage.blank lateRun,
          (1, ⟨5000, 1000⟩) ∈ published sampleSymbol x ∧
          (sampleAdmin, ⟨5000, 1000⟩) ∈ ballots sampleSymbol 1 y ∧
          x.pre.committeeConfig = some ⟨2, 100, 300⟩ ∧ ¬ x.act.timestamp - 1000 ≤ 300 := by
      decide +kernel
    obtain ⟨x, hx, y, hy, hpublished, hvote, hconfig, hlate⟩ := hstale
    have hfresh := h lateRun (by decide +kernel) x hx y hy _ _ _ _ _ hpublished hvote hconfig
    exact hlate hfresh
  · exact absurd (h lateRun (by decide +kernel) sampleSymbol) (by decide +kernel)

/-- **What is known of the timestamps.** Every submission of a published price was fresh when it was
submitted. The price carries the oldest of their timestamps, so that all of them were fresh at its
publication when it says so itself. The clock of the ledger does not go back; then a price whose
submissions all came after an earlier publication is older than it by at most the age that a
submission may have. -/
theorem oracle_freshness (as : List Tx) :
    let steps := accepted step Storage.blank as
    (∀ before x after asset round data, steps = before ++ x :: after →
      (round, data) ∈ published asset x →
      (∀ y ∈ before ++ [x], ∀ vote ∈ ballots asset round y, ∃ config,
        y.pre.committeeConfig = some config ∧ vote.2.timestamp ≤ y.act.timestamp ∧
        y.act.timestamp - vote.2.timestamp ≤ config.maxTimestampAge) ∧
      let votes := (before ++ [x]).flatMap (ballots asset round)
      (∀ vote ∈ votes, data.timestamp ≤ vote.2.timestamp) ∧
      (∃ vote ∈ votes, data.timestamp = vote.2.timestamp) ∧ data.timestamp ≤ x.act.timestamp ∧
      ∀ age, x.act.timestamp - data.timestamp ≤ age →
        ∀ vote ∈ votes, x.act.timestamp - vote.2.timestamp ≤ age) ∧
    ((as.map Tx.timestamp).Pairwise (· ≤ ·) →
      ∀ before y between x after asset round round' data data' age,
        steps = before ++ y :: (between ++ x :: after) →
        (round, data) ∈ published asset y → (round', data') ∈ published asset x →
        (before ++ [y]).flatMap (ballots asset round') = [] →
        (∀ z ∈ between ++ [x], ∀ config, z.pre.committeeConfig = some config →
          config.maxTimestampAge ≤ age) →
        data.timestamp ≤ data'.timestamp + age) := by
  intro steps
  have hok : ∀ y ∈ steps, step y.pre y.act = .ok y.post := fun y hy => (accepted_ok y hy).1
  refine ⟨fun before x after asset round data hsplit hpublished => ⟨fun y hy vote hvote => ?_, ?_⟩,
    fun hclock before y between x after asset round round' data data' age hsplit hy hx hnone hage =>
    ?_⟩
  · have hmem : y ∈ steps := by
      rw [hsplit, List.append_cons]
      exact List.mem_append_left _ hy
    obtain ⟨config, hadmissible⟩ := admissible_of_ballot (hok y hmem) hvote
    exact ⟨config, hadmissible.configured, hadmissible.past, hadmissible.fresh⟩
  · intro votes
    have hmem : x ∈ steps := by
      rw [hsplit]
      exact List.mem_append_right _ List.mem_cons_self
    obtain ⟨hle, hmin, hnow⟩ :=
      oldest_of_published (hok x hmem) (logged_pre hsplit).balloted hpublished
    refine ⟨hle, hmin, hnow, fun age hage vote hvote => ?_⟩
    have hvote := hle vote hvote
    omega
  · have hymem : y ∈ steps := by
      rw [hsplit]
      exact List.mem_append_right _ List.mem_cons_self
    have hxsplit : steps = (before ++ y :: between) ++ x :: after := by
      rw [hsplit, List.append_assoc, List.cons_append]
    have hxmem : x ∈ steps := by
      rw [hxsplit]
      exact List.mem_append_right _ List.mem_cons_self
    have hysplit : steps = before ++ y :: (between ++ x :: after) := hsplit
    obtain ⟨-, -, hdata⟩ := oldest_of_published (hok y hymem) (logged_pre hysplit).balloted hy
    obtain ⟨-, ⟨vote, hvote, holdest⟩, -⟩ :=
      oldest_of_published (hok x hxmem) (logged_pre hxsplit).balloted hx
    -- the oldest submission came after the earlier publication
    obtain ⟨z, hz, hvote⟩ := List.mem_flatMap.mp hvote
    have hlater : z ∈ between ++ [x] := by
      rw [List.append_assoc, List.cons_append, List.append_cons, List.mem_append] at hz
      rcases hz with hz | hz
      · have hmem := List.mem_flatMap_of_mem hz hvote
        rw [hnone] at hmem
        cases hmem
      · exact hz
    have hzmem : z ∈ steps := by
      rw [hsplit]
      refine List.mem_append_right _ (List.mem_cons_of_mem _ ?_)
      rw [List.append_cons]
      exact List.mem_append_left _ hlater
    obtain ⟨config, hadmissible⟩ := admissible_of_ballot (hok z hzmem) hvote
    have hfresh := hadmissible.fresh
    have hconfig := hage z hlater config hadmissible.configured
    have htimes : (steps.map fun x => x.act.timestamp).Pairwise (· ≤ ·) := by
      rw [show (fun x : Step Storage Tx => x.act.timestamp) = Tx.timestamp ∘ Step.act from rfl,
        ← List.map_map]
      exact hclock.sublist (accepted_sublist.map _)
    have hyz : y.act.timestamp ≤ z.act.timestamp := by
      rw [hsplit, List.map_append, List.map_cons] at htimes
      have hcons := (List.pairwise_append.mp htimes).2.1
      refine (List.pairwise_cons.mp hcons).1 _ (List.mem_map_of_mem ?_)
      rw [List.append_cons]
      exact List.mem_append_left _ hlater
    dsimp only at hfresh
    omega

end Pnlx.PriceOracle
