import Pnlx.Properties.VaultIsolation

/-!
# Rounding in the vault

Shares and amounts are converted by divisions that round down, in both directions against the
owner. So a deposit gains nothing when its shares are redeemed, neither lowers the assets per share,
and while the vault has neither gains nor losses nobody takes out more than was paid in.

1. `Performs.paid_le`: a deposit and the redemption of its shares.
2. `price_step`: the assets per share.
3. `atCost_step`: without gains and losses a share costs one, and the shares of an owner are what
   the owner has paid in and not taken out.
-/

namespace Pnlx.LiquidityVault

open Program Runs

variable {A : Asset}

section Trades

variable {vault : Address} {v v' : Vault A} {series : ℕ} {owner : Address}

/-- What shares are redeemed for after the deposit that has bought them, while the liquid assets and
the supply are as it has left them. -/
theorem Performs.paid_le {a : Address} {amount minted paid released : ℤ} {v₁ v₂ v₃ : Vault A}
    (hv : Accounted vault v) (hv₂ : Accounted vault v₂)
    (hdeposit : Performs vault series (.mint owner amount minted) v v₁)
    (hliquid : (v₂.fund vault series).liquid = (v₁.fund vault series).liquid)
    (hsupply : (v₂.fund vault series).supply = (v₁.fund vault series).supply)
    (hredeem : Performs vault series (.burn a minted paid released) v₂ v₃) : paid ≤ amount := by
  have hpaid := Fund.Terms.amount_mul_le (hv₂.sound series) hredeem.allows hredeem.terms
  rw [hliquid, hsupply, hdeposit.fund, Function.update_self] at hpaid
  exact Fund.paid_le_of_mint (hv.sound series) hdeposit.allows hdeposit.terms hpaid

theorem accounted_deposit {callers : List Address} {amount minShares minted : I128}
    (hv : Accounted vault v)
    (h : Returns (deposit owner series amount minShares) ⟨callers, vault⟩ v minted v') :
    Accounted vault v' := by
  have hrun : Returns (Call.deposit owner series amount minShares).run ⟨callers, vault⟩ v () v' :=
    returns_bind.mpr ⟨minted, v', h, returns_pure.mpr ⟨rfl, rfl⟩⟩
  exact accounted_step hv (step_invoke_eq_ok.mpr hrun)

/-- A call that buys or redeems shares. -/
def Call.Trades : Call → Prop
  | .deposit _ _ _ _ | .withdraw _ _ _ _ | .claimWithdrawal _ _ _ => True
  | _ => False

/-- **Trading does not lower the assets per share**, in no series. -/
theorem price_step {callers : List Address} {call : Call} (hv : Accounted vault v)
    (hcall : call.Trades) (h : step vault v (.invoke callers call) = .ok v') (s : ℕ) :
    (v.fund vault s).assets * (v'.fund vault s).supply ≤
      (v'.fund vault s).assets * (v.fund vault s).supply := by
  obtain ⟨series, hseries⟩ : ∃ series, call.series = some series := by
    cases call with
    | deposit _ series _ _ | withdraw _ series _ _ | claimWithdrawal _ series _ =>
      exact ⟨series, rfl⟩
    | _ => exact hcall.elim
  obtain ⟨m, hperforms, hmakes⟩ := performs_of_series hv hseries h
  rw [hperforms.fund]
  by_cases hs : s = series
  · subst hs
    rw [Function.update_self]
    cases call with
    | deposit owner _ amount _ =>
      obtain ⟨minted, rfl⟩ := hmakes
      exact Fund.price_mint hperforms.terms
    | withdraw owner _ shares _ =>
      obtain ⟨amount, rfl⟩ := hmakes
      exact Fund.price_burn (hv.sound s) hperforms.allows hperforms.terms
    | claimWithdrawal owner _ _ =>
      obtain ⟨shares, amount, rfl⟩ := hmakes
      exact Fund.price_burn (hv.sound s) hperforms.allows hperforms.terms
    | _ => exact hcall.elim
  · rw [Function.update_of_ne hs]

/-! ## Without gains and losses -/

/-- A share is worth one, and owners have a share for each unit that they have in the vault. -/
structure AtCost (vault : Address) (v : Vault A) : Prop where
  par : ∀ series, (v.fund vault series).AtPar
  cost : ∀ owner, HasTotal (fun series => (v.fund vault series).shares owner)
    (v.records.deposited owner - v.records.withdrawn owner)

/-- At par, the records of the amounts change as the shares do. -/
theorem cost_after {f : Fund Address} {m : Fund.Move Address} {limit : ℤ} {r : Records}
    (hpar : f.AtPar) (hs : f.Sound) (hm : f.Allows m) (ht : f.Terms limit 10000 m)
    (owner : Address) :
    (r.after series (f.apply m) m).deposited owner - (r.after series (f.apply m) m).withdrawn owner =
      r.deposited owner - r.withdrawn owner + ((f.apply m).shares owner - f.shares owner) := by
  cases m with
  | mint o amount minted =>
    have hminted := hpar.minted_eq ht
    show Function.update r.deposited o _ owner - r.withdrawn owner =
      r.deposited owner - r.withdrawn owner + (Function.update f.shares o _ owner - f.shares owner)
    by_cases ho : owner = o
    · subst ho
      rw [Function.update_self, Function.update_self, hminted]
      omega
    · rw [Function.update_of_ne ho, Function.update_of_ne ho]
      omega
  | burn o count amount released =>
    have hamount := hpar.amount_eq hs hm ht
    show r.deposited owner - Function.update r.withdrawn o _ owner =
      r.deposited owner - r.withdrawn owner + (Function.update f.shares o _ owner - f.shares owner)
    by_cases ho : owner = o
    · subst ho
      rw [Function.update_self, Function.update_self, hamount]
      omega
    · rw [Function.update_of_ne ho, Function.update_of_ne ho]
      omega
  | pend o count | lend amount | repay principal returned | float liquid =>
    show _ = _ + (f.shares owner - f.shares owner)
    rw [sub_self, add_zero]
    rfl

/-- **The step lemma.** -/
theorem atCost_step {a : Action A} (hv : Accounted vault v) (hc : AtCost vault v)
    (hflat : a.Flat vault v) (h : step vault v a = .ok v') : AtCost vault v' := by
  obtain ⟨-, hadministers | ⟨series, m, hperforms, -, hm⟩⟩ := step_performs hv h
  · have hfund := hadministers.fund vault
    refine ⟨fun s => by rw [hfund]; exact hc.par s, fun owner => ?_⟩
    rw [hadministers.records, hfund]
    exact hc.cost owner
  · refine ⟨fun s => ?_, fun owner => ?_⟩
    · rw [hperforms.fund]
      by_cases hs : s = series
      · subst hs
        rw [Function.update_self]
        exact (hc.par s).move (hv.sound s) hperforms.allows hperforms.terms (hm hflat)
      · rw [Function.update_of_ne hs]
        exact hc.par s
    · have hshares : (fun s => (v'.fund vault s).shares owner) =
          Function.update (fun s => (v.fund vault s).shares owner) series
            (((v.fund vault series).apply m).shares owner) := by
        funext s
        rw [hperforms.fund]
        by_cases hs : s = series
        · subst hs
          rw [Function.update_self, Function.update_self]
        · rw [Function.update_of_ne hs, Function.update_of_ne hs]
      rw [hshares, hperforms.records, cost_after (hc.par series) (hv.sound series)
        hperforms.allows hperforms.terms owner]
      exact (hc.cost owner).update series _

theorem atCost_construct {env : VaultEnv} {asset operator maker : Address} {limit : ℕ}
    {t : A.State}
    (h : Returns (construct asset operator maker limit) env ⟨Storage.blank, t⟩ () v) :
    AtCost env.current v := by
  obtain ⟨-, hrecords, hfund⟩ := construct_returns h
  refine ⟨fun s hsupply => ?_, fun owner => ?_⟩
  · rw [hfund] at hsupply
    exact absurd rfl hsupply
  · simp only [hrecords, hfund, sub_self]
    exact HasTotal.zero

end Trades

/-! ## Rounding never favours the caller -/

/-- **Rounding never favours the caller.** In every reachable vault, shares that are withdrawn right
after their deposit, or requested and claimed, return at most its amount; no deposit or redemption
lowers the assets per share of a series; and when every settlement of the run returned its
principal, no loss was recorded and no tokens were donated, nobody has withdrawn more than
deposited. -/
theorem vault_rounding {vault asset operator maker : Address} {limit : ℕ}
    {signers : List Address} {t : A.State} {v₀ : Vault A} (hmaker : maker ≠ vault)
    (hdeploy : Returns (construct asset operator maker limit) ⟨signers, vault⟩ ⟨Storage.blank, t⟩ ()
      v₀) (as : List (Action A)) :
    let v := final (step vault) v₀ as
    (∀ callers owner series amount minShares minted v₁,
      Returns (deposit owner series amount minShares) ⟨callers, vault⟩ v minted v₁ →
      (∀ callers' minAssets paid v₂,
        Returns (withdraw owner series minted minAssets) ⟨callers', vault⟩ v₁ paid v₂ →
        paid.toInt ≤ amount.toInt) ∧
      (v.storage.pendingOf series owner = 0 →
        ∀ callers' callers'' minAssets v₂ paid v₃,
          Returns (requestWithdraw owner series minted) ⟨callers', vault⟩ v₁ () v₂ →
          Returns (claimWithdrawal owner series minAssets) ⟨callers'', vault⟩ v₂ paid v₃ →
          paid.toInt ≤ amount.toInt)) ∧
    (∀ callers call v', call.Trades → step vault v (.invoke callers call) = .ok v' → ∀ series,
      (v.liquidOf vault series + (v.storage.principalOf series).toInt) *
          (v'.storage.supplyOf series).toInt ≤
        (v'.liquidOf vault series + (v'.storage.principalOf series).toInt) *
          (v.storage.supplyOf series).toInt) ∧
    ((∀ x ∈ accepted (step vault) v₀ as, x.act.Flat vault x.pre) → ∀ owner,
      (v.storage.withdrawn owner).toInt ≤ (v.storage.deposited owner).toInt) := by
  intro v
  have hv₀ : Accounted vault v₀ := accounted_construct hmaker hdeploy
  have hv : Accounted vault v := accounted_run as hv₀
  refine ⟨fun callers owner series amount minShares minted v₁ hdeposit => ⟨?_, ?_⟩, ?_, ?_⟩
  · intro callers' minAssets paid v₂ hwithdraw
    have hmint := @deposit_performs A ⟨callers, vault⟩ v v₁ series owner _ _ _ hv hdeposit
    have hv₁ := accounted_deposit hv hdeposit
    have hburn := @withdraw_performs A ⟨callers', vault⟩ v₁ v₂ series owner _ _ _ hv₁ hwithdraw
    exact hmint.paid_le hv hv₁ rfl rfl hburn
  · intro hnone callers' callers'' minAssets v₂ paid v₃ hrequest hclaim
    have hmint := @deposit_performs A ⟨callers, vault⟩ v v₁ series owner _ _ _ hv hdeposit
    have hv₁ := accounted_deposit hv hdeposit
    have hpend := @requestWithdraw_performs A ⟨callers', vault⟩ v₁ v₂ _ series owner _ hv₁ hrequest
    have hv₂ : Accounted vault v₂ := accounted_step (a := .invoke callers'
      (.requestWithdraw owner series minted)) hv₁ (step_invoke_eq_ok.mpr hrequest)
    have hburn := @claimWithdrawal_performs A ⟨callers'', vault⟩ v₂ v₃ series owner _ _ hv₂ hclaim
    -- the shares that are claimed are those of the request
    have hpending : (v₂.storage.pendingOf series owner).toInt = minted.toInt := by
      have hbefore : (v.fund vault series).pending owner = 0 := congrArg BitVec.toInt hnone
      show (v₂.fund vault series).pending owner = minted.toInt
      rw [hpend.fund, Function.update_self]
      show Function.update (v₁.fund vault series).pending owner _ owner = _
      rw [Function.update_self, hmint.fund, Function.update_self]
      show (v.fund vault series).pending owner + minted.toInt = minted.toInt
      rw [hbefore, zero_add]
    rw [hpending] at hburn
    refine hmint.paid_le hv hv₂ ?_ ?_ hburn
    · rw [hpend.fund, Function.update_self]
      rfl
    · rw [hpend.fund, Function.update_self]
      rfl
  · exact fun callers call v' hcall h => price_step hv hcall h
  · intro hflat owner
    have hc : Accounted vault v ∧ AtCost vault v :=
      @final_of_accepted _ _ _ _ (fun x => x.act.Flat vault x.pre)
        (fun v => Accounted vault v ∧ AtCost vault v)
        (fun x hx h hinv => ⟨accounted_step hinv.1 h, atCost_step hinv.1 hinv.2 hx h⟩)
        _ _ ⟨hv₀, atCost_construct hdeploy⟩ hflat
    have htotal := (hc.2.cost owner).nonneg fun s => (hv.sound s).shares_nonneg owner
    exact sub_nonneg.mp htotal

instance {vault : Address} {v : Vault A} {a : Action A} : Decidable (a.Flat vault v) :=
  match a with
  | .invoke _ (.settle _ principal returned) => inferInstanceAs (Decidable (returned = principal))
  | .invoke _ (.recordLoss _ _) => inferInstanceAs (Decidable False)
  | .invoke _ (.setUpgradeAuthority _) | .invoke _ (.rotateUpgradeAuthority _)
  | .invoke _ (.setPaused _) | .invoke _ (.setAllocationLimit _) | .invoke _ (.allocate _ _)
  | .invoke _ (.recoverUnowned _) | .invoke _ (.deposit _ _ _ _) | .invoke _ (.withdraw _ _ _ _)
  | .invoke _ (.requestWithdraw _ _ _) | .invoke _ (.cancelWithdrawRequest _ _ _)
  | .invoke _ (.claimWithdrawal _ _ _) => inferInstanceAs (Decidable True)
  | .tokens t => inferInstanceAs (Decidable (A.balance t vault = A.balance v.tokens vault))

/-- A loan that comes back whole, and withdrawals of two series. -/
def sampleFlatRun : List (Action sampleAsset) :=
  [.invoke [sampleOperator] (.setPaused false),
    .invoke [sampleOwner] (.deposit sampleOwner 0 200 0),
    .invoke [sampleOperator] (.allocate 0 80),
    .invoke [sampleOwner] (.deposit sampleOwner 1 100 0),
    .invoke [sampleOperator] (.settle 0 80 80),
    .invoke [sampleOwner] (.withdraw sampleOwner 0 50 0),
    .invoke [sampleOwner] (.withdraw sampleOwner 1 100 0)]

theorem sampleVault_rounding :
    let v := final (step sampleVault) deployedVault sampleFlatRun
    (v.storage.withdrawn sampleOwner, v.storage.deposited sampleOwner) = (150, 300) ∧
      (v.storage.withdrawn sampleOwner).toInt ≤ (v.storage.deposited sampleOwner).toInt :=
  ⟨by decide +kernel, (@vault_rounding sampleAsset sampleVault (.contract 2) sampleOperator
    sampleOperator 5000 [sampleOperator] sampleTokens deployedVault (by decide) rfl
    sampleFlatRun).2.2 (by decide +kernel) sampleOwner⟩

end Pnlx.LiquidityVault
