import Mathlib.Data.List.Forall2
import Rulebook.Proofs.Corpus.Claims

/-!
# Every card is kept or reported

A corpus takes its cards one after the other. Those that come first with their ids are kept, and each of
the others is reported once, so that no card is lost. If no two cards have one id, the order in which
they come makes no difference.
-/

namespace Rulebook.Corpus

set_option autoImplicit false

open scoped List

variable {cards : List LoadedCard} {loaded : LoadedCard}

variable {built : Corpus × List CardError}

theorem perm_add (h : built.1.find? loaded.id = none) :
    (add built loaded).1.toList ~ loaded :: built.1.toList := by
  rw [add, h]
  exact (Keyed.perm_insert loaded h).map _

theorem add_of_claimed {claimant : LoadedCard} (h : built.1.find? loaded.id = some claimant) :
    (add built loaded).1 = built.1 := by
  rw [add, h]

/-! ## Those who come late -/

/-- The cards that come after another card with their id. -/
def latecomers (cards : List LoadedCard) : List LoadedCard :=
  (cards.zipIdx.filter fun entry => (cards.take entry.2).any (·.id == entry.1.id)).map (·.1)

theorem isSome_claimant? (cards : List LoadedCard) (id : String) :
    (claimant? cards id).isSome = cards.any (·.id == id) := by
  rw [Bool.eq_iff_iff, claimant?, List.find?_isSome, List.any_eq_true]

theorem latecomers_concat (cards : List LoadedCard) (loaded : LoadedCard) :
    latecomers (cards ++ [loaded]) =
      latecomers cards ++ if (claimant? cards loaded.id).isSome then [loaded] else [] := by
  have hbefore : ∀ entry ∈ cards.zipIdx,
      ((cards ++ [loaded]).take entry.2).any (·.id == entry.1.id) =
        (cards.take entry.2).any (·.id == entry.1.id) := by
    intro entry hentry
    have hlt : entry.2 < cards.length := List.snd_lt_of_mem_zipIdx hentry
    rw [List.take_append_of_le_length (Nat.le_of_lt hlt)]
  have hlast : (cards ++ [loaded]).take cards.length = cards := List.take_left
  rw [latecomers, List.zipIdx_append, List.filter_append, List.map_append,
    List.filter_congr hbefore, latecomers, isSome_claimant?, List.zipIdx_singleton, Nat.zero_add,
    List.filter_singleton, hlast]
  cases cards.any (·.id == loaded.id) <;> rfl

theorem claimant?_concat {claimant : LoadedCard} {id : String} (h : claimant? cards id = some claimant)
    (loaded : LoadedCard) : claimant? (cards ++ [loaded]) id = some claimant := by
  rw [claimant?, List.find?_append, ← claimant?, h, Option.some_or]

/-- The card has lost its id to the first of the cards that have it. -/
def Reports (cards : List LoadedCard) (e : CardError) (loaded : LoadedCard) : Prop :=
  ∃ first, claimant? cards loaded.id = some first ∧ e = .duplicateId loaded.id first.path loaded.path

theorem Reports.concat {e : CardError} {late : LoadedCard} (h : Reports cards e late)
    (loaded : LoadedCard) : Reports (cards ++ [loaded]) e late := by
  obtain ⟨first, hfirst, he⟩ := h
  exact ⟨first, claimant?_concat hfirst loaded, he⟩

theorem latecomers_eq_nil_iff : latecomers cards = [] ↔ (cards.map (·.id)).Nodup := by
  induction cards using List.reverseRecOn with
  | nil => simp [latecomers]
  | append_singleton cards loaded ih =>
    rw [latecomers_concat, List.append_eq_nil_iff, ih, List.map_append, List.map_singleton,
      ← List.concat_eq_append, List.nodup_concat, isSome_claimant?, and_comm]
    refine and_congr_left fun _ => ?_
    simp

/-! ## What a corpus accounts for -/

/-- Every card is in the corpus or reported. -/
structure Accounts (cards : List LoadedCard) (built : Corpus × List CardError) : Prop where
  conserved : built.1.size + built.2.length = cards.length
  kept : built.1.toList ++ latecomers cards ~ cards
  claimed : ∀ id, built.1.find? id = claimant? cards id
  reported : List.Forall₂ (Reports cards) built.2 (latecomers cards)
  rising : (built.1.toList.map (·.id)).Pairwise (· < ·)

theorem perm_build (cards : List LoadedCard) :
    (build cards).1.toList ++ latecomers cards ~ cards := by
  induction cards using List.reverseRecOn with
  | nil => exact .refl _
  | append_singleton cards loaded ih =>
    rw [build_concat, latecomers_concat]
    cases hclaimed : claimant? cards loaded.id with
    | none =>
      rw [if_neg (by simp), List.append_nil]
      rw [← find?_build] at hclaimed
      calc
        (add (build cards) loaded).1.toList ++ latecomers cards
        _ ~ loaded :: ((build cards).1.toList ++ latecomers cards) := (perm_add hclaimed).append_right _
        _ ~ loaded :: cards := ih.cons _
        _ ~ cards ++ [loaded] := (List.perm_append_singleton _ _).symm
    | some claimant =>
      rw [if_pos (by simp), ← List.append_assoc]
      rw [← find?_build] at hclaimed
      rw [add_of_claimed hclaimed]
      exact ih.append_right _

theorem reported_build (cards : List LoadedCard) :
    List.Forall₂ (Reports cards) (build cards).2 (latecomers cards) := by
  induction cards using List.reverseRecOn with
  | nil => exact .nil
  | append_singleton cards loaded ih =>
    have hbefore : List.Forall₂ (Reports (cards ++ [loaded])) (build cards).2 (latecomers cards) :=
      ih.imp fun _ _ h => h.concat loaded
    rw [errors_build_concat, latecomers_concat, claimErrors]
    refine List.rel_append hbefore ?_
    cases hclaimed : claimant? cards loaded.id with
    | none => exact .nil
    | some first => exact .cons ⟨first, claimant?_concat hclaimed loaded, rfl⟩ .nil

theorem accounts_build (cards : List LoadedCard) : Accounts cards (build cards) where
  conserved := by
    have hkept := (perm_build cards).length_eq
    have hreported := (reported_build cards).length_eq
    have hsize : (build cards).1.toList.length = (build cards).1.size := List.length_map _
    rw [List.length_append] at hkept
    omega
  kept := perm_build cards
  claimed := find?_build cards
  reported := reported_build cards
  rising := (isKeyed_build cards).rising_ids

theorem claimant?_eq_some_iff (hdistinct : (cards.map (·.id)).Nodup) {id : String} :
    claimant? cards id = some loaded ↔ loaded ∈ cards ∧ loaded.id = id := by
  constructor
  · intro h
    have hid := List.find?_some h
    exact ⟨List.mem_of_find?_eq_some h, beq_iff_eq.mp hid⟩
  · rintro ⟨hloaded, rfl⟩
    exact claimant?_eq_some hdistinct hloaded

theorem mem_build_iff (hdistinct : (cards.map (·.id)).Nodup) {entry : String × LoadedCard} :
    entry ∈ (build cards).1.cards ↔ entry.2 ∈ cards ∧ entry.2.id = entry.1 := by
  rw [← claimant?_eq_some_iff hdistinct, ← find?_build, Corpus.find?,
    Keyed.find?_eq_some_iff (isKeyed_build cards).rising]

theorem errors_build_eq_nil_iff : (build cards).2 = [] ↔ (cards.map (·.id)).Nodup := by
  rw [← latecomers_eq_nil_iff, ← List.length_eq_zero_iff, ← List.length_eq_zero_iff,
    (reported_build cards).length_eq]

/-- The corpus of any cards keeps the first card with each id and accounts for every other one by an
error against that first card, in the order of the cards. If the ids are distinct, nothing is reported,
and the same cards in another order come to the same corpus. -/
theorem build_accounts (cards : List LoadedCard) :
    Accounts cards (build cards) ∧ ((build cards).2 = [] ↔ (cards.map (·.id)).Nodup) ∧
      ((cards.map (·.id)).Nodup → ∀ other, other.Perm cards → build other = build cards) := by
  refine ⟨accounts_build cards, errors_build_eq_nil_iff, fun hdistinct other hperm => ?_⟩
  have hdistinct' : (other.map (·.id)).Nodup := (hperm.map _).nodup_iff.mpr hdistinct
  apply Prod.ext
  · have hcards : (build other).1.cards = (build cards).1.cards := by
      apply Keyed.eq_of_rising (isKeyed_build other).rising (isKeyed_build cards).rising
      intro entry
      rw [mem_build_iff hdistinct', mem_build_iff hdistinct, hperm.mem_iff]
    rw [Corpus.mk.injEq, hcards]
  · rw [errors_build_eq_nil_iff.mpr hdistinct', errors_build_eq_nil_iff.mpr hdistinct]

/-- A card of which only the id and the file are known. -/
def filed (id path : String) : LoadedCard :=
  { card := { (default : Card) with id }, path := ⟨path⟩, contentHash := "" }

/-- Two cards come to one corpus in both orders. Of two ids that take turns, each is claimed by the
first card that has it. -/
theorem build_accounts_turns :
    build [filed "B" "b.yaml", filed "A" "a.yaml"] = build [filed "A" "a.yaml", filed "B" "b.yaml"] ∧
      (build [filed "A" "1", filed "B" "2", filed "A" "3", filed "B" "4", filed "A" "5"]).2 =
        [.duplicateId "A" ⟨"1"⟩ ⟨"3"⟩, .duplicateId "B" ⟨"2"⟩ ⟨"4"⟩, .duplicateId "A" ⟨"1"⟩ ⟨"5"⟩] :=
  ⟨(build_accounts [filed "A" "a.yaml", filed "B" "b.yaml"]).2.2 (by decide) _ (.swap _ _ _), rfl⟩

end Rulebook.Corpus
