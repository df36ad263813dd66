import Mathlib.Algebra.BigOperators.Finprod
import Mathlib.Algebra.Order.BigOperators.Group.Finset
import Mathlib.Algebra.Order.Group.Int
import Mathlib.Tactic.Abel
import Mathlib.Tactic.Linarith

/-!
# Funds of shares

A fund has liquid assets, principal that it has lent out, and shares of its owners, some of which
wait for their withdrawal. Owners buy and redeem shares, the fund lends and is repaid.

1. `HasTotal f t`: a function that vanishes outside a finite set has the sum `t`.
   `HasTotal.update` is the rule for a single entry, `HasTotal.iff_list` that for a list.
2. `Fund.Move`: what can happen to a fund, and `Fund.Allows`, when it may.
3. `Fund.Sound`: the amounts are not negative, the supply is the sum of the shares, the pending
   total that of the pending shares, and a fund without shares has lent nothing. Every allowed move
   keeps it (`Sound.move`). A fund that nobody pays into directly also has nothing liquid then
   (`closed_move`).
4. `Fund.Terms`: what a move costs. A fund whose moves keep the terms lends only a part of its
   assets (`Within.move`), has liquid assets while it has shares (`Solvent.move`), never lowers the
   assets per share (`price_mint`, `price_burn`), takes back at most what it gave
   (`paid_le_of_mint`), and keeps a price of one (`AtPar.move`).
-/

/-! ## Totals -/

section HasTotal

variable {α M : Type*}

/-- All but finitely many values of `f` are zero, and their sum is `t`. -/
structure HasTotal [AddCommGroup M] (f : α → M) (t : M) : Prop where
  finite : (Function.support f).Finite
  sum : ∑ᶠ a, f a = t

namespace HasTotal

section Group

variable [AddCommGroup M] {f : α → M} {t : M}

theorem zero : HasTotal (fun _ : α => (0 : M)) 0 where
  finite := by
    rw [Function.support_fun_zero]
    exact Set.finite_empty
  sum := finsum_zero

theorem of_sum {S : Finset α} (hS : ∀ a, a ∉ S → f a = 0) (h : ∑ a ∈ S, f a = t) :
    HasTotal f t := by
  have hsub : Function.support f ⊆ S := fun a ha => by
    by_contra hmem
    exact ha (hS a hmem)
  exact ⟨S.finite_toSet.subset hsub, (finsum_eq_sum_of_support_subset f hsub).trans h⟩

/-- The total is the sum over any finite set that misses only zeros. -/
theorem sum_eq (h : HasTotal f t) {S : Finset α} (hS : ∀ a, a ∉ S → f a = 0) :
    ∑ a ∈ S, f a = t := by
  have hsub : Function.support f ⊆ S := fun a ha => by
    by_contra hmem
    exact ha (hS a hmem)
  rw [← finsum_eq_sum_of_support_subset f hsub, h.sum]

theorem exists_finset (h : HasTotal f t) (a : α) :
    ∃ S : Finset α, a ∈ S ∧ ∀ b, b ∉ S → f b = 0 := by
  classical
  refine ⟨insert a h.finite.toFinset, Finset.mem_insert_self a _, fun b hb => ?_⟩
  rw [Finset.mem_insert, not_or, Set.Finite.mem_toFinset] at hb
  exact Function.notMem_support.mp hb.2

/-- The total of a function that vanishes outside a list. -/
theorem iff_list {l : List α} (hl : l.Nodup) (hzero : ∀ a, a ∉ l → f a = 0) :
    HasTotal f t ↔ (l.map f).sum = t := by
  classical
  have hS : ∀ a, a ∉ l.toFinset → f a = 0 := fun a ha =>
    hzero a fun h => ha (List.mem_toFinset.mpr h)
  rw [← List.sum_toFinset f hl]
  exact ⟨fun h => h.sum_eq hS, of_sum hS⟩

/-- **The rule for one entry.** -/
theorem update [DecidableEq α] (h : HasTotal f t) (a : α) (v : M) :
    HasTotal (Function.update f a v) (t + (v - f a)) := by
  obtain ⟨S, hmem, hzero⟩ := h.exists_finset a
  refine of_sum (S := S) (fun b hb => ?_) ?_
  · have hne : b ≠ a := fun hba => hb (hba ▸ hmem)
    rw [Function.update_of_ne hne, hzero b hb]
  · rw [Finset.sum_update_of_mem hmem, ← h.sum_eq hzero,
      Finset.sum_eq_add_sum_sdiff_singleton_of_mem hmem f]
    abel

end Group

section Order

variable [AddCommGroup M] [PartialOrder M] [IsOrderedAddMonoid M] {f : α → M} {t : M}

/-- An entry of a total without negative entries is at most the total. -/
theorem le (h : HasTotal f t) (hf : ∀ a, 0 ≤ f a) (a : α) : f a ≤ t := by
  obtain ⟨S, hmem, hzero⟩ := h.exists_finset a
  rw [← h.sum_eq hzero]
  exact Finset.single_le_sum (fun b _ => hf b) hmem

theorem nonneg (h : HasTotal f t) (hf : ∀ a, 0 ≤ f a) : 0 ≤ t := by
  rw [← h.sum]
  exact finsum_nonneg hf

/-- A vanishing total without negative entries has no entries. -/
theorem eq_zero (h : HasTotal f 0) (hf : ∀ a, 0 ≤ f a) (a : α) : f a = 0 :=
  le_antisymm (h.le hf a) (hf a)

end Order

end HasTotal

end HasTotal

/-! ## Funds -/

/-- A fund with the shares of its owners. -/
@[ext]
structure Fund (α : Type*) where
  liquid : ℤ
  principal : ℤ
  supply : ℤ
  pendingTotal : ℤ
  shares : α → ℤ
  pending : α → ℤ

namespace Fund

variable {α : Type*}

/-- What happens to a fund. -/
inductive Move (α : Type*) where
  /-- Assets are paid in for new shares. -/
  | mint (owner : α) (amount minted : ℤ)
  /-- Shares are redeemed for assets; some of them were pending. -/
  | burn (owner : α) (count amount released : ℤ)
  /-- More or fewer shares are pending. -/
  | pend (owner : α) (count : ℤ)
  | lend (amount : ℤ)
  | repay (principal returned : ℤ)
  /-- The liquid assets change for a reason outside the fund. -/
  | float (liquid : ℤ)

/-- When a move may happen. -/
def Allows (f : Fund α) : Move α → Prop
  | .mint _ amount minted => 0 ≤ amount ∧ 0 < minted
  | .burn owner count amount released =>
    f.principal = 0 ∧ 0 < count ∧ 0 ≤ amount ∧ amount ≤ f.liquid ∧
      (count = f.supply → amount = f.liquid) ∧ 0 ≤ f.pending owner - released ∧
      f.pending owner - released ≤ f.shares owner - count
  | .pend owner count => 0 ≤ f.pending owner + count ∧ f.pending owner + count ≤ f.shares owner
  | .lend amount => 0 ≤ amount ∧ amount ≤ f.liquid ∧ f.supply ≠ 0
  | .repay principal returned => 0 < principal ∧ principal ≤ f.principal ∧ 0 ≤ returned
  | .float liquid => 0 ≤ liquid

/-- The books of a fund are in order. -/
structure Sound (f : Fund α) : Prop where
  liquid : 0 ≤ f.liquid
  principal : 0 ≤ f.principal
  shares : HasTotal f.shares f.supply
  pending : HasTotal f.pending f.pendingTotal
  pending_nonneg : ∀ a, 0 ≤ f.pending a
  pending_le : ∀ a, f.pending a ≤ f.shares a
  lent : f.supply = 0 → f.principal = 0

/-- A fund without shares has nothing liquid. -/
def Closed (f : Fund α) : Prop := f.supply = 0 → f.liquid = 0

variable {f : Fund α} {m : Move α}

theorem Sound.shares_nonneg (h : f.Sound) (a : α) : 0 ≤ f.shares a :=
  (h.pending_nonneg a).trans (h.pending_le a)

theorem Sound.supply_nonneg (h : f.Sound) : 0 ≤ f.supply := h.shares.nonneg h.shares_nonneg

/-- An owner has at most all shares. -/
theorem Sound.shares_le (h : f.Sound) (a : α) : f.shares a ≤ f.supply :=
  h.shares.le h.shares_nonneg a

section Moves

variable [DecidableEq α]

def apply (f : Fund α) : Move α → Fund α
  | .mint owner amount minted =>
    { f with
      liquid := f.liquid + amount
      supply := f.supply + minted
      shares := Function.update f.shares owner (f.shares owner + minted) }
  | .burn owner count amount released =>
    { f with
      liquid := f.liquid - amount
      supply := f.supply - count
      pendingTotal := f.pendingTotal - released
      shares := Function.update f.shares owner (f.shares owner - count)
      pending := Function.update f.pending owner (f.pending owner - released) }
  | .pend owner count =>
    { f with
      pendingTotal := f.pendingTotal + count
      pending := Function.update f.pending owner (f.pending owner + count) }
  | .lend amount => { f with liquid := f.liquid - amount, principal := f.principal + amount }
  | .repay principal returned =>
    { f with liquid := f.liquid + returned, principal := f.principal - principal }
  | .float liquid => { f with liquid := liquid }

/-- A bound that holds everywhere holds after an update of one entry by a value that meets it. -/
private theorem update_rel {f g : α → ℤ} {o : α} {v w : ℤ} {R : ℤ → ℤ → Prop}
    (hfg : ∀ a, R (f a) (g a)) (hv : R v w) (a : α) :
    R (Function.update f o v a) (Function.update g o w a) := by
  by_cases ha : a = o
  · subst ha
    rwa [Function.update_self, Function.update_self]
  · rw [Function.update_of_ne ha, Function.update_of_ne ha]
    exact hfg a

/-- **Every allowed move keeps the books in order.** -/
theorem Sound.move (h : f.Sound) (hm : f.Allows m) : (f.apply m).Sound := by
  cases m with
  | mint owner amount minted =>
    obtain ⟨hamount, hminted⟩ := hm
    have hsupply := h.supply_nonneg
    have hshares := h.shares.update owner (f.shares owner + minted)
    rw [add_sub_cancel_left] at hshares
    refine ⟨add_nonneg h.liquid hamount, h.principal, hshares, h.pending, h.pending_nonneg,
      fun a => ?_, fun hzero => ?_⟩
    · refine (h.pending_le a).trans ?_
      show f.shares a ≤ Function.update f.shares owner (f.shares owner + minted) a
      by_cases ha : a = owner
      · subst ha
        rw [Function.update_self]
        omega
      · rw [Function.update_of_ne ha]
    · have : f.supply + minted = 0 := hzero
      omega
  | burn owner count amount released =>
    obtain ⟨hprincipal, -, hamount, hliquid, -, hpending, hle⟩ := hm
    have hshares := h.shares.update owner (f.shares owner - count)
    have htotal := h.pending.update owner (f.pending owner - released)
    rw [sub_sub_cancel_left, ← sub_eq_add_neg] at hshares htotal
    exact ⟨sub_nonneg.mpr hliquid, h.principal, hshares, htotal,
      fun a => update_rel (R := fun x _ => 0 ≤ x) (g := f.shares) (w := 0) h.pending_nonneg
        hpending a, update_rel h.pending_le hle, fun _ => hprincipal⟩
  | pend owner count =>
    obtain ⟨hpending, hle⟩ := hm
    have htotal := h.pending.update owner (f.pending owner + count)
    rw [add_sub_cancel_left] at htotal
    refine ⟨h.liquid, h.principal, h.shares, htotal, fun a => ?_, fun a => ?_, h.lent⟩
    · exact update_rel (R := fun x _ => 0 ≤ x) (g := f.shares) (w := 0) h.pending_nonneg hpending a
    · have hrel := update_rel (o := owner) (w := f.shares owner) h.pending_le hle a
      rwa [Function.update_eq_self] at hrel
  | lend amount =>
    obtain ⟨hamount, hliquid, hsupply⟩ := hm
    exact ⟨sub_nonneg.mpr hliquid, add_nonneg h.principal hamount, h.shares, h.pending,
      h.pending_nonneg, h.pending_le, fun hzero => absurd hzero hsupply⟩
  | repay principal returned =>
    obtain ⟨hpos, hle, hreturned⟩ := hm
    refine ⟨add_nonneg h.liquid hreturned, sub_nonneg.mpr hle, h.shares, h.pending,
      h.pending_nonneg, h.pending_le, fun hzero => ?_⟩
    have := h.lent hzero
    omega
  | float liquid =>
    exact ⟨hm, h.principal, h.shares, h.pending, h.pending_nonneg, h.pending_le, h.lent⟩

/-- A move other than `float` keeps a fund closed. -/
theorem Sound.closed_move (h : f.Sound) (hclosed : f.Closed) (hm : f.Allows m)
    (hfloat : ∀ liquid, m ≠ .float liquid) : (f.apply m).Closed := by
  intro hzero
  have hsupply := h.supply_nonneg
  cases m with
  | mint owner amount minted =>
    have hzero : f.supply + minted = 0 := hzero
    have hminted := hm.2
    omega
  | burn owner count amount released =>
    obtain ⟨-, -, -, -, hall, -, -⟩ := hm
    have hzero : f.supply - count = 0 := hzero
    show f.liquid - amount = 0
    rw [hall (by omega), sub_self]
  | pend owner count => exact hclosed hzero
  | lend amount => exact absurd hzero hm.2.2
  | repay principal returned =>
    obtain ⟨hpos, hle, -⟩ := hm
    have := h.lent hzero
    omega
  | float liquid => exact absurd rfl (hfloat liquid)

end Moves

/-! ## Terms -/

/-- The liquid and the lent assets. -/
def assets (f : Fund α) : ℤ := f.liquid + f.principal

/-- The terms of a move. Shares are bought and redeemed for their part of the assets, rounded
against their owner, and what is lent stays within the part `limit / scale` of the assets. -/
def Terms (f : Fund α) (limit scale : ℤ) : Move α → Prop
  | .mint _ amount minted =>
    f.principal = 0 ∧ 0 < amount ∧ (f.supply = 0 → f.liquid = 0 ∧ minted = amount) ∧
      (f.supply ≠ 0 → 0 < f.liquid ∧ minted = amount * f.supply / f.liquid)
  | .burn _ count amount _ => count ≠ f.supply → amount = count * f.liquid / f.supply
  | .pend _ _ => True
  | .lend amount => (f.principal + amount) * scale ≤ limit * f.assets
  | .repay _ _ => True
  | .float liquid => f.supply ≠ 0 → f.liquid ≤ liquid

/-- At most the part `limit / scale` of the assets is lent out. -/
def Within (f : Fund α) (limit scale : ℤ) : Prop := f.principal * scale ≤ limit * f.assets

/-- A fund with shares has liquid assets. -/
def Solvent (f : Fund α) : Prop := f.supply ≠ 0 → 0 < f.liquid

/-- A share is worth one. -/
def AtPar (f : Fund α) : Prop := f.supply ≠ 0 → f.assets = f.supply

variable {limit scale : ℤ} {owner : α} {amount minted count released : ℤ}

theorem Terms.minted_mul_le (ht : f.Terms limit scale (.mint owner amount minted)) :
    minted * f.liquid ≤ amount * f.supply := by
  obtain ⟨-, -, hnone, hsome⟩ := ht
  by_cases hsupply : f.supply = 0
  · rw [(hnone hsupply).1, hsupply, mul_zero, mul_zero]
  · obtain ⟨hliquid, hminted⟩ := hsome hsupply
    rw [hminted]
    exact Int.ediv_mul_le _ hliquid.ne'

/-- What a redemption pays is at most the part of the shares in the liquid assets. -/
theorem paid_mul_le (hsupply : f.supply ≠ 0) (hall : count = f.supply → amount = f.liquid)
    (hpart : count ≠ f.supply → amount = count * f.liquid / f.supply) :
    amount * f.supply ≤ count * f.liquid := by
  by_cases hcount : count = f.supply
  · rw [hall hcount, hcount, mul_comm]
  · rw [hpart hcount]
    exact Int.ediv_mul_le _ hsupply

theorem Terms.amount_mul_le (hs : f.Sound) (hm : f.Allows (.burn owner count amount released))
    (ht : f.Terms limit scale (.burn owner count amount released)) :
    amount * f.supply ≤ count * f.liquid := by
  obtain ⟨-, hcount, -, -, hall, hpending, hle⟩ := hm
  refine paid_mul_le ?_ hall ht
  have hshares := hs.shares_le owner
  omega

/-- At par, shares cost what they are. -/
theorem AtPar.minted_eq (h : f.AtPar) (ht : f.Terms limit scale (.mint owner amount minted)) :
    minted = amount := by
  obtain ⟨hprincipal, -, hnone, hsome⟩ := ht
  by_cases hsupply : f.supply = 0
  · exact (hnone hsupply).2
  · obtain ⟨-, hminted⟩ := hsome hsupply
    have hpar : f.liquid + f.principal = f.supply := h hsupply
    rw [hprincipal, add_zero] at hpar
    rw [hminted, hpar, Int.mul_ediv_cancel _ hsupply]

theorem AtPar.amount_eq (h : f.AtPar) (hs : f.Sound)
    (hm : f.Allows (.burn owner count amount released))
    (ht : f.Terms limit scale (.burn owner count amount released)) : amount = count := by
  obtain ⟨hprincipal, hcount, -, -, hall, hpending, hle⟩ := hm
  have hsupply : f.supply ≠ 0 := by
    have hshares := hs.shares_le owner
    omega
  have hpar : f.liquid + f.principal = f.supply := h hsupply
  rw [hprincipal, add_zero] at hpar
  by_cases hcount' : count = f.supply
  · rw [hall hcount', hpar, hcount']
  · rw [ht hcount', hpar, Int.mul_ediv_cancel _ hsupply]

/-- A move that brings neither gains nor losses. -/
def Flat (f : Fund α) : Move α → Prop
  | .repay principal returned => returned = principal
  | .float liquid => f.supply ≠ 0 → liquid = f.liquid
  | _ => True

section Moves

variable [DecidableEq α]

/-- **The limit holds after every move**, not only after a loan. -/
theorem Within.move (h : f.Within limit scale) (hs : f.Sound) (hlimit : 0 ≤ limit)
    (hle : limit ≤ scale) (hm : f.Allows m) (ht : f.Terms limit scale m) :
    (f.apply m).Within limit scale := by
  unfold Within assets at h ⊢
  cases m with
  | mint owner amount minted =>
    have hmore : limit * (f.liquid + f.principal) ≤ limit * (f.liquid + amount + f.principal) :=
      mul_le_mul_of_nonneg_left (by have := hm.1; omega) hlimit
    exact h.trans hmore
  | burn owner count amount released =>
    obtain ⟨hprincipal, -, -, hliquid, -⟩ := hm
    show f.principal * scale ≤ limit * (f.liquid - amount + f.principal)
    rw [hprincipal, zero_mul, add_zero]
    exact mul_nonneg hlimit (sub_nonneg.mpr hliquid)
  | pend owner count => exact h
  | lend amount =>
    show (f.principal + amount) * scale ≤ limit * (f.liquid - amount + (f.principal + amount))
    rw [sub_add_add_cancel, add_comm f.liquid, add_comm f.principal]
    have hlend : (f.principal + amount) * scale ≤ limit * (f.liquid + f.principal) := ht
    rwa [add_comm f.principal amount, add_comm f.liquid] at hlend
  | repay principal returned =>
    obtain ⟨hpos, -, hreturned⟩ := hm
    show (f.principal - principal) * scale ≤
      limit * (f.liquid + returned + (f.principal - principal))
    -- the principal falls by more than its part of the assets
    have hpart : limit * principal ≤ scale * principal := mul_le_mul_of_nonneg_right hle hpos.le
    have hback : 0 ≤ limit * returned := mul_nonneg hlimit hreturned
    linarith
  | float liquid =>
    show f.principal * scale ≤ limit * (liquid + f.principal)
    by_cases hsupply : f.supply = 0
    · rw [hs.lent hsupply, zero_mul, add_zero]
      exact mul_nonneg hlimit hm
    · have hmore : limit * (f.liquid + f.principal) ≤ limit * (liquid + f.principal) :=
        mul_le_mul_of_nonneg_left (by have := ht hsupply; omega) hlimit
      exact h.trans hmore

/-- **A fund with shares never runs dry**: not through rounding, losses or loans up to a limit
below the whole. -/
theorem Solvent.move (h : f.Solvent) (hs : f.Sound) (hlimit : 0 ≤ limit) (hlt : limit < scale)
    (hm : f.Allows m) (ht : f.Terms limit scale m) : (f.apply m).Solvent := by
  intro hsupply
  cases m with
  | mint owner amount minted => exact add_pos_of_nonneg_of_pos hs.liquid ht.2.1
  | burn owner count amount released =>
    have hsupply : f.supply - count ≠ 0 := hsupply
    have hmul := Terms.amount_mul_le hs hm ht
    obtain ⟨-, hcount, -, -, -, hpending, hle⟩ := hm
    have hrest : 0 < f.supply - count := by
      have hshares := hs.shares_le owner
      omega
    have hpos : 0 < f.supply := by omega
    -- what is left of the assets is worth at least the shares that are left
    have hleft : 0 < (f.liquid - amount) * f.supply := by
      have hworth := mul_pos (h hpos.ne') hrest
      linarith
    exact pos_of_mul_pos_left hleft hpos.le
  | pend owner count => exact h hsupply
  | lend amount =>
    have hliquid := h hm.2.2
    have hprincipal := hs.principal
    have hamount := hm.1
    have hlend : (f.principal + amount) * scale ≤ limit * (f.liquid + f.principal) := ht
    show 0 < f.liquid - amount
    by_contra hdry
    -- all assets would be lent
    have hall : limit * (f.liquid + f.principal) ≤ limit * (f.principal + amount) :=
      mul_le_mul_of_nonneg_left (by omega) hlimit
    have hpart : limit * (f.principal + amount) < scale * (f.principal + amount) :=
      mul_lt_mul_of_pos_right hlt (by omega)
    linarith
  | repay principal returned => exact add_pos_of_pos_of_nonneg (h hsupply) hm.2.2
  | float liquid => exact (h hsupply).trans_le (ht hsupply)

/-- A purchase does not lower the assets per share. -/
theorem price_mint (ht : f.Terms limit scale (.mint owner amount minted)) :
    f.assets * (f.apply (.mint owner amount minted)).supply ≤
      (f.apply (.mint owner amount minted)).assets * f.supply := by
  have hmul := ht.minted_mul_le
  show (f.liquid + f.principal) * (f.supply + minted) ≤ (f.liquid + amount + f.principal) * f.supply
  rw [ht.1, add_zero, add_zero]
  linarith

/-- Nor does a redemption. -/
theorem price_burn (hs : f.Sound) (hm : f.Allows (.burn owner count amount released))
    (ht : f.Terms limit scale (.burn owner count amount released)) :
    f.assets * (f.apply (.burn owner count amount released)).supply ≤
      (f.apply (.burn owner count amount released)).assets * f.supply := by
  have hmul := Terms.amount_mul_le hs hm ht
  show (f.liquid + f.principal) * (f.supply - count) ≤ (f.liquid - amount + f.principal) * f.supply
  rw [hm.1, add_zero, add_zero]
  linarith

/-- Shares that are redeemed for at most their part after their purchase give back at most what
they cost. -/
theorem paid_le_of_mint {out : ℤ} (hs : f.Sound) (hm : f.Allows (.mint owner amount minted))
    (ht : f.Terms limit scale (.mint owner amount minted))
    (hpaid : out * (f.apply (.mint owner amount minted)).supply ≤
      minted * (f.apply (.mint owner amount minted)).liquid) : out ≤ amount := by
  have hpaid : out * (f.supply + minted) ≤ minted * (f.liquid + amount) := hpaid
  have hbought := ht.minted_mul_le
  have hpos : 0 < f.supply + minted := by
    have hsupply := hs.supply_nonneg
    have hminted := hm.2
    omega
  refine le_of_mul_le_mul_right ?_ hpos
  linarith

/-- **Without gains and losses a share stays worth one.** -/
theorem AtPar.move (h : f.AtPar) (hs : f.Sound) (hm : f.Allows m) (ht : f.Terms limit scale m)
    (hflat : f.Flat m) : (f.apply m).AtPar := by
  intro hsupply
  cases m with
  | mint owner amount minted =>
    have hminted := h.minted_eq ht
    obtain ⟨hprincipal, -, hnone, -⟩ := ht
    show f.liquid + amount + f.principal = f.supply + minted
    rw [hminted, hprincipal, add_zero]
    by_cases hold : f.supply = 0
    · rw [(hnone hold).1, hold]
    · have hpar : f.liquid + f.principal = f.supply := h hold
      rw [← hpar, hprincipal, add_zero]
  | burn owner count amount released =>
    have hamount := h.amount_eq hs hm ht
    have hold : f.supply ≠ 0 := by
      obtain ⟨-, hcount, -, -, -, hpending, hle⟩ := hm
      have hshares := hs.shares_le owner
      omega
    have hpar : f.liquid + f.principal = f.supply := h hold
    show f.liquid - amount + f.principal = f.supply - count
    rw [hamount, ← hpar]
    abel
  | pend owner count => exact h hsupply
  | lend amount =>
    have hpar : f.liquid + f.principal = f.supply := h hsupply
    show f.liquid - amount + (f.principal + amount) = f.supply
    rw [← hpar]
    abel
  | repay principal returned =>
    have hpar : f.liquid + f.principal = f.supply := h hsupply
    have hreturned : returned = principal := hflat
    show f.liquid + returned + (f.principal - principal) = f.supply
    rw [← hpar, hreturned]
    abel
  | float liquid =>
    show liquid + f.principal = f.supply
    rw [hflat hsupply]
    exact h hsupply

end Moves

end Fund
