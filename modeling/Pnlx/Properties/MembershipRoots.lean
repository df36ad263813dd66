import Mathlib
import Pnlx.Lib.Runs
import Pnlx.SampleHost
import Pnlx.Server.StoreTrees

/-!
# The roots of membership of the store

The trees of the store have fixed depths, every operation that credits a note adds a leaf, and no
operation checks that there is room. As long as what the calls bring is read and fits, the roots
and the proofs of membership are defined. The first call that overfills a tree takes them away from
all users (`membership_defined`).
-/

namespace Pnlx.Server

open BatchMatch (Text fieldHex)
open Script Runs

variable {H : Host} {P : Fr → Fr → Fr}

/-- Neither a root nor the proof of a recorded margin note throws. -/
structure Defined (P : Fr → Fr → Fr) (store : ProtocolStore) : Prop where
  marginRoot : (store.marginMembershipRoot P).isSome
  marginProof : ∀ commitment ∈ store.marginCommitments,
    (store.marginMembershipProof P commitment).isSome
  positionRoot : (store.positionMembershipRoot P).isSome

/-- The texts are read and fit a tree of the depth. -/
def FitsTree (depth : ℕ) (leaves : OrderedSet Text) : Prop :=
  (∀ text ∈ leaves, Reads text) ∧ leaves.size ≤ 2 ^ depth

theorem defined_iff {store : ProtocolStore} :
    Defined P store ↔ FitsTree fieldMerkleDepth store.marginCommitments ∧
      FitsTree positionMerkleDepth store.positionCommitments := by
  constructor
  · intro h
    exact ⟨fieldMerkleRoot_isSome_iff.mp h.marginRoot,
      positionMerkleRoot_isSome_iff.mp h.positionRoot⟩
  · rintro ⟨hmargin, hposition⟩
    refine ⟨fieldMerkleRoot_isSome_iff.mpr hmargin, fun commitment hmem => ?_,
      positionMerkleRoot_isSome_iff.mpr hposition⟩
    obtain ⟨leaves, hleaves, hlength⟩ := exists_reads hmargin.1
    obtain ⟨leaf, hleaf, hread⟩ :=
      (mapM_eq_some.mp hleaves).flip.exists_of_mem_right (OrderedSet.mem_elems.mpr hmem)
    obtain ⟨i, -, -, hproof⟩ := fieldMerkleProof_eq (P := P) hleaves
      (hlength.trans_le hmargin.2) hread hleaf
    unfold ProtocolStore.marginMembershipProof
    rw [hproof]
    rfl

/-- A call of the store, whether it returns or throws. -/
def callStep (H : Host) (P : Fr → Fr → Fr) (store : ProtocolStore) (call : StoreCall) :
    Except Empty ProtocolStore := .ok ((call.script H P).after store)

/-- The commitments that a call brings are read, and with those recorded before them there are no
more distinct ones than the tree has leaves. -/
def Room (depth : ℕ) (leaves : OrderedSet Text) (new : List Text) : Prop :=
  (∀ text ∈ new, Reads text) ∧ (leaves.elems ++ new).toFinset.card ≤ 2 ^ depth

/-- There is room for what a call brings. -/
structure Fits (x : Step ProtocolStore StoreCall) : Prop where
  margins : Room fieldMerkleDepth x.pre.marginCommitments x.act.margins
  positions : Room positionMerkleDepth x.pre.positionCommitments x.act.positions

/-- Leaves that come from a tree and from what there is room for fit. -/
theorem FitsTree.grow {depth : ℕ} {leaves leaves' : OrderedSet Text} {new : List Text}
    (h : FitsTree depth leaves) (hroom : Room depth leaves new)
    (hgrow : ∀ x ∈ leaves', x ∈ leaves ∨ x ∈ new) : FitsTree depth leaves' := by
  refine ⟨fun x hx => (hgrow x hx).elim (h.1 x) (hroom.1 x), ?_⟩
  exact (OrderedSet.size_le_of_subset fun x hx => List.mem_append.mpr (hgrow x hx)).trans hroom.2

/-- Leaves that fit had room. -/
theorem FitsTree.room {depth : ℕ} {leaves : OrderedSet Text} {new : List Text}
    (h : FitsTree depth (leaves.addAll new)) : Room depth leaves new := by
  refine ⟨fun x hx => h.1 x (OrderedSet.mem_addAll.mpr (Or.inr hx)), ?_⟩
  rw [← OrderedSet.size_addAll]
  exact h.2

theorem callStep_post {x : Step ProtocolStore StoreCall}
    (h : callStep H P x.pre x.act = .ok x.post) : (x.act.script H P).after x.pre = x.post :=
  Except.ok.inj h

/-- **The step lemma.** A call that has room leaves the roots and proofs defined. -/
theorem Defined.step {x : Step ProtocolStore StoreCall} (hfits : Fits x)
    (h : callStep H P x.pre x.act = .ok x.post) (hpre : Defined P x.pre) : Defined P x.post := by
  have hadds := (maintains_adds (H := H) (P := P) x.act).rel x.pre
  rw [callStep_post h] at hadds
  obtain ⟨hmargin, hposition⟩ := defined_iff.mp hpre
  exact defined_iff.mpr
    ⟨hmargin.grow hfits.margins hadds.margins, hposition.grow hfits.positions hadds.positions⟩

/-- A call that returns had room, if it leaves the roots and proofs defined. -/
theorem Defined.fits {x : Step ProtocolStore StoreCall}
    (h : Returns (x.act.script H P) x.pre () x.post) (hpost : Defined P x.post) : Fits x := by
  obtain ⟨hmargin, hposition⟩ := defined_iff.mp hpost
  obtain ⟨hmargins, hpositions⟩ := trees_of_returns h
  rw [hmargins] at hmargin
  rw [hpositions] at hposition
  exact ⟨hmargin.room, hposition.room⟩

theorem defined_empty : Defined P ProtocolStore.empty := by
  refine defined_iff.mpr ⟨⟨fun _ h => absurd h OrderedSet.not_mem_empty, Nat.zero_le _⟩,
    fun _ h => absurd h OrderedSet.not_mem_empty, Nat.zero_le _⟩

/-- **The roots of membership are defined while there is room.** In every run of calls from a new
store that each have room, the roots and the proofs of all recorded margin notes are defined in
every state. A call that returns without having had room leaves a state in which they are not. -/
theorem membership_defined (H : Host) (P : Fr → Fr → Fr) (calls : List StoreCall) :
    ((∀ x ∈ accepted (callStep H P) .empty calls, Fits x) →
      Defined P .empty ∧ ∀ x ∈ accepted (callStep H P) .empty calls, Defined P x.post) ∧
    ∀ x ∈ accepted (callStep H P) .empty calls,
      Returns (x.act.script H P) x.pre () x.post → ¬ Fits x → ¬ Defined P x.post := by
  constructor
  · intro hfits
    exact ⟨defined_empty, fun x hx =>
      (around_of_accepted (fun _ hok h => Defined.step hok h) defined_empty hfits x hx).2⟩
  · intro x _ hreturns hfits hdefined
    exact hfits (hdefined.fits hreturns)

/-! ## A full tree -/

/-- The commitments of the deposits. -/
def manyCommitments : List Text := (List.range 257).map fun i => fieldHex (Fin.ofNat _ i)

theorem after_addMarginCommitment (s : ProtocolStore) (commitment : Text) :
    (addMarginCommitment commitment).after s =
      { s with marginCommitments := s.marginCommitments.add commitment } := by
  by_cases hmem : commitment ∈ s.marginCommitments
  · have hsame : s.marginCommitments.add commitment = s.marginCommitments := by
      cases h : s.marginCommitments
      rw [h] at hmem
      simp only [OrderedSet.add, OrderedSet.mk.injEq]
      exact if_pos hmem
    rw [hsame]
    unfold addMarginCommitment after
    simp only [bind_apply, Script.read, throwIf, id, if_pos hmem]
  · unfold addMarginCommitment after
    simp only [bind_apply, Script.read, throwIf, id, if_neg hmem, Script.update]

/-- A run of deposits records their commitments. -/
theorem final_deposits (s : ProtocolStore) (commitments : List Text) :
    (final (callStep H P) s (commitments.map .addMarginCommitment)).marginCommitments =
      s.marginCommitments.addAll commitments := by
  induction commitments generalizing s with
  | nil => rfl
  | cons commitment commitments ih =>
    have hstep : callStep H P s (.addMarginCommitment commitment) =
        .ok ((addMarginCommitment commitment).after s) := rfl
    rw [List.map_cons, final_cons_ok hstep, ih, after_addMarginCommitment]
    rfl

theorem card_manyCommitments : manyCommitments.toFinset.card = 257 := by
  have hnodup : manyCommitments.Nodup := by
    refine List.Nodup.map_on (fun i hi j hj h => ?_) List.nodup_range
    have hval := congrArg Fin.val (fieldHex_injective h)
    have hbound : 257 < bn254ScalarModulus := by decide
    simp only [Fin.val_ofNat] at hval
    rwa [Nat.mod_eq_of_lt ((List.mem_range.mp hi).trans hbound),
      Nat.mod_eq_of_lt ((List.mem_range.mp hj).trans hbound)] at hval
  rw [List.toFinset_card_of_nodup hnodup, manyCommitments, List.length_map, List.length_range]

/-- **A deposit takes the roots away.** After 257 deposits of distinct commitments no margin note
can be proved a member. -/
theorem exists_full_tree :
    ¬ ∀ calls : List StoreCall,
      Defined SampleHost.pairHash (final (callStep sampleHost SampleHost.pairHash) .empty calls) := by
  intro h
  obtain ⟨⟨-, hsize⟩, -⟩ := defined_iff.mp (h (manyCommitments.map .addMarginCommitment))
  rw [final_deposits, OrderedSet.size_addAll] at hsize
  have hcard : (([] : List Text) ++ manyCommitments).toFinset.card ≤ 2 ^ fieldMerkleDepth := hsize
  rw [List.nil_append, card_manyCommitments] at hcard
  exact absurd hcard (by decide)

end Pnlx.Server
