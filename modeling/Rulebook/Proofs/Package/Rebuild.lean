import Rulebook.Proofs.Build.Stages
import Rulebook.Proofs.Corpus.Claims
import Rulebook.Proofs.Package.Recompile

/-!
# A package that agrees with itself can be rebuilt

Nothing is found in a package by itself exactly if its own cards, loaded from anywhere, make up a corpus in
which they compile to the same rules, cards, digest and hooks. The checks are local, on neighbours and on
places; compiling sorts the cards and refuses repeated ones.
-/

namespace Rulebook.Package

set_option autoImplicit false

variable {cards : List LoadedCard} {p q : Package}

/-- Cards in order of which no neighbours have one id rise strictly. -/
theorem rising_of_firstRepeated (hsorted : cards.Pairwise fun a b => ¬ b.id < a.id)
    (h : firstRepeated cards = none) : (cards.map (·.id)).Pairwise (· < ·) := by
  induction cards with
  | nil => exact .nil
  | cons first rest ih =>
    cases rest with
    | nil => exact List.pairwise_singleton _ _
    | cons second others =>
      obtain ⟨hfirst, hrest⟩ := List.pairwise_cons.mp hsorted
      have hne : first.id ≠ second.id := by
        intro heq
        rw [firstRepeated, if_pos heq] at h
        cases h
      rw [firstRepeated, if_neg hne] at h
      have hrising := ih hrest h
      have hlt : first.id < second.id :=
        Std.lt_of_le_of_ne (Std.not_lt.mp (hfirst second List.mem_cons_self)) hne
      refine List.pairwise_cons.mpr ⟨fun id hid => ?_, hrising⟩
      rcases List.mem_cons.mp hid with rfl | hid
      · exact hlt
      · exact String.lt_trans hlt ((List.pairwise_cons.mp hrising).1 id hid)

theorem sorted_inOrder (cards : List LoadedCard) :
    (inOrder cards).Pairwise fun a b => ¬ b.id < a.id :=
  sorted_mergeSort (·.id) cards

/-- What can be compiled at all makes a package that agrees with itself. -/
theorem isConsistent_of_compile {agent : Agent} {corpus : Corpus} {stamp : Stamp}
    {attribution : String} (hhashed : ∀ loaded ∈ cards, loaded.contentHash = loaded.card.contentHash)
    (h : compile agent cards corpus stamp attribution = .ok q) : q.IsConsistent := by
  obtain ⟨hne, hrepeated, -, rfl⟩ := compile_ok h
  refine isConsistent_ofCards _ _ _ (fun hnil => hne ?_)
    (rising_of_firstRepeated (sorted_inOrder cards) hrepeated) fun loaded hloaded => ?_
  · exact (List.perm_nil.mp (hnil ▸ (List.mergeSort_perm cards _).symm))
  · exact hhashed loaded (List.mem_mergeSort.mp hloaded)

/-- The rules, cards, digest and hooks of two packages are the same. -/
structure SameRecord (p q : Package) : Prop where
  rules : p.rules = q.rules
  details : p.rulesDetail = q.rulesDetail
  digest : p.sourceDigest = q.sourceDigest
  hooks : p.validationHooks = q.validationHooks

theorem SameRecord.isConsistent (h : p.SameRecord q) (hp : p.IsConsistent) : q.IsConsistent where
  nonempty := h.rules ▸ hp.nonempty
  aligned := by rw [← h.rules, ← h.details, hp.aligned]
  rising := h.rules ▸ hp.rising
  digest := by rw [← h.digest, ← hp.digest, computedDigest, computedDigest, h.details]
  hooks := by rw [← h.details, ← h.hooks, hp.hooks]

/-- The cards of a package, loaded from some places. -/
def loadedCards (p : Package) (place : Nat → Path) : List LoadedCard :=
  p.rulesDetail.zipIdx.map fun (card, i) => .ofCard card (place i)

theorem cards_loadedCards (p : Package) (place : Nat → Path) :
    (p.loadedCards place).map (·.card) = p.rulesDetail := by
  rw [loadedCards, List.map_map]
  exact List.zipIdx_map_fst 0 p.rulesDetail

theorem ids_loadedCards (p : Package) (place : Nat → Path) :
    (p.loadedCards place).map (·.id) = p.rulesDetail.map (·.id) := by
  rw [← cards_loadedCards p place, List.map_map]
  rfl

theorem hashed_loadedCards (p : Package) (place : Nat → Path) :
    ∀ loaded ∈ p.loadedCards place, loaded.contentHash = loaded.card.contentHash := by
  intro loaded hloaded
  obtain ⟨⟨card, i⟩, -, rfl⟩ := List.mem_map.mp hloaded
  rfl

/-- A package agrees with itself exactly if compiling its own cards gives it back, the agent and the
stamp apart. -/
theorem clean_iff_rebuilt (p : Package) (place : Nat → Path) (agent : Agent) (stamp : Stamp)
    (attribution : String) :
    p.verify none = [] ↔
      ∃ q, compile agent (p.loadedCards place) (Corpus.build (p.loadedCards place)).1 stamp
        attribution = .ok q ∧ q.SameRecord p := by
  have hids := ids_loadedCards p place
  have hhashed := hashed_loadedCards p place
  rw [verify_none_eq_nil_iff]
  constructor
  · intro hp
    -- as the ids rise, the corpus keeps every card and sorting leaves them where they are
    have hrising : ((p.loadedCards place).map (·.id)).Pairwise (· < ·) := by
      rw [hids, ← hp.aligned]
      exact hp.rising
    have hne : p.loadedCards place ≠ [] := by
      intro hnil
      rw [hnil] at hids
      exact hp.nonempty (hp.aligned.trans hids.symm)
    have hknown : ∀ loaded ∈ p.loadedCards place,
        (Corpus.build (p.loadedCards place)).1.find? loaded.id = some loaded := by
      intro loaded hloaded
      rw [Corpus.find?_build]
      exact Corpus.claimant?_eq_some (nodup_of_rising hrising) hloaded
    have hfresh := isConsistent_ofCards agent stamp attribution hne hrising hhashed
    refine ⟨_, compile_of_rising hne hrising hknown agent stamp attribution, ?_⟩
    constructor
    · exact hids.trans hp.aligned.symm
    · exact cards_loadedCards p place
    · rw [← hfresh.digest, ← hp.digest, computedDigest, computedDigest, ofCards,
        cards_loadedCards p place]
    · rw [← hfresh.hooks, ← hp.hooks, ofCards, cards_loadedCards p place]
  · rintro ⟨q, hcompile, hsame⟩
    exact hsame.isConsistent (isConsistent_of_compile hhashed hcompile)

end Rulebook.Package
