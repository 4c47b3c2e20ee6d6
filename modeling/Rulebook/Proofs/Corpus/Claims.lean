import Mathlib.Data.List.Nodup
import Rulebook.Proofs.Corpus.Basic

/-!
# Who claims an id

Of the cards with one id the first one is in the corpus, and every later one is reported against it. So
a card whose id no other card has is always there.
-/

namespace Rulebook.Corpus

set_option autoImplicit false

variable {cards : List LoadedCard} {loaded : LoadedCard}

/-- The first of some cards with an id. -/
def claimant? (cards : List LoadedCard) (id : String) : Option LoadedCard :=
  cards.find? (·.id == id)

/-- What is reported of a card that comes after others. -/
def claimErrors (cards : List LoadedCard) (loaded : LoadedCard) : List CardError :=
  match claimant? cards loaded.id with
  | none => []
  | some claimant => [.duplicateId loaded.id claimant.path loaded.path]

theorem build_concat (cards : List LoadedCard) (loaded : LoadedCard) :
    build (cards ++ [loaded]) = add (build cards) loaded := by
  rw [build, List.foldl_concat, build]

theorem find?_build (cards : List LoadedCard) (id : String) :
    (build cards).1.find? id = claimant? cards id := by
  -- cards are added one after the other, so the last one is tried against those before
  induction cards using List.reverseRecOn generalizing id with
  | nil => rfl
  | append_singleton cards loaded ih =>
    have hlast : claimant? (cards ++ [loaded]) id =
        (claimant? cards id).or (if loaded.id = id then some loaded else none) := by
      rw [claimant?, List.find?_append, List.find?_singleton, claimant?]
      simp only [beq_iff_eq]
    rw [build_concat, hlast, ← ih, add]
    cases hclaimed : (build cards).1.find? loaded.id with
    | none =>
      rw [Corpus.find?, Keyed.find?_insert]
      by_cases hid : loaded.id = id
      · rw [if_pos hid, if_pos hid, ← hid, hclaimed, Option.none_or]
      · rw [if_neg hid, if_neg hid, Option.or_none, Corpus.find?]
    | some claimant =>
      by_cases hid : loaded.id = id
      · rw [← hid, hclaimed, Option.some_or]
      · rw [if_neg hid, Option.or_none]

theorem errors_build_concat (cards : List LoadedCard) (loaded : LoadedCard) :
    (build (cards ++ [loaded])).2 = (build cards).2 ++ claimErrors cards loaded := by
  rw [build_concat, add, claimErrors, ← find?_build]
  cases (build cards).1.find? loaded.id with
  | none => rw [List.append_nil]
  | some claimant => rfl

/-- The card has lost its id to an earlier one. -/
def LostBy (e : CardError) (loaded : LoadedCard) : Prop :=
  ∃ first, e = .duplicateId loaded.id first loaded.path

theorem lostBy_of_mem_claimErrors {e : CardError} (h : e ∈ claimErrors cards loaded) :
    LostBy e loaded := by
  rw [claimErrors] at h
  split at h
  · cases h
  · exact ⟨_, List.mem_singleton.mp h⟩

/-- More cards add only errors about themselves. -/
theorem errors_build_append (cards more : List LoadedCard) :
    ∃ rest, (build (cards ++ more)).2 = (build cards).2 ++ rest ∧
      ∀ e ∈ rest, ∃ loaded ∈ more, LostBy e loaded := by
  induction more using List.reverseRecOn with
  | nil => exact ⟨[], by rw [List.append_nil, List.append_nil], fun _ h => (List.not_mem_nil h).elim⟩
  | append_singleton more loaded ih =>
    obtain ⟨rest, hrest, habout⟩ := ih
    refine ⟨rest ++ claimErrors (cards ++ more) loaded, ?_, fun e he => ?_⟩
    · rw [← List.append_assoc, errors_build_concat, hrest, List.append_assoc]
    · rcases List.mem_append.mp he with he | he
      · obtain ⟨other, hother, hlost⟩ := habout e he
        exact ⟨other, List.mem_append_left _ hother, hlost⟩
      · exact ⟨loaded, List.mem_append_right _ (List.mem_singleton_self _),
          lostBy_of_mem_claimErrors he⟩

theorem lostBy_of_mem_errors {e : CardError} (h : e ∈ (build cards).2) :
    ∃ loaded ∈ cards, LostBy e loaded := by
  obtain ⟨rest, hrest, habout⟩ := errors_build_append [] cards
  rw [List.nil_append] at hrest
  exact habout e (by rwa [hrest] at h)

/-- An id is lost to the file of another card. -/
theorem duplicate_of_mem_errors {e : CardError} (h : e ∈ (build cards).2) :
    ∃ loaded ∈ cards, ∃ claimant ∈ cards, e = .duplicateId loaded.id claimant.path loaded.path := by
  induction cards using List.reverseRecOn with
  | nil => cases h
  | append_singleton cards loaded ih =>
    rw [errors_build_concat] at h
    rcases List.mem_append.mp h with h | h
    · obtain ⟨other, hother, claimant, hclaimant, rfl⟩ := ih h
      exact ⟨other, List.mem_append_left _ hother, claimant, List.mem_append_left _ hclaimant, rfl⟩
    · rw [claimErrors] at h
      split at h
      · cases h
      · rename_i claimant hclaimant
        rw [List.mem_singleton.mp h]
        refine ⟨loaded, List.mem_append_right _ (List.mem_singleton_self _), claimant, ?_, rfl⟩
        exact List.mem_append_left _ (List.mem_of_find?_eq_some hclaimant)

theorem claimant?_eq_some (hdistinct : (cards.map (·.id)).Nodup) (h : loaded ∈ cards) :
    claimant? cards loaded.id = some loaded := by
  cases hclaimed : claimant? cards loaded.id with
  | none =>
    have hid := List.find?_eq_none.mp hclaimed loaded h
    exact absurd (beq_self_eq_true _) hid
  | some claimant =>
    have hid : claimant.id = loaded.id := by simpa using List.find?_some hclaimed
    rw [List.inj_on_of_nodup_map hdistinct (List.mem_of_find?_eq_some hclaimed) h hid]

end Rulebook.Corpus
