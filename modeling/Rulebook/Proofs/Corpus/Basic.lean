import Rulebook.Corpus.Load
import Rulebook.Proofs.Card.Schema
import Rulebook.Proofs.Corpus.Workers

/-!
# Sound corpora

A corpus that was loaded holds every card under its own id, with its own hash, and its cards have
passed the schema.
-/

namespace Rulebook

set_option autoImplicit false

/-- A card as it is loaded. -/
structure LoadedCard.IsSound (loaded : LoadedCard) : Prop where
  hashed : loaded.contentHash = loaded.card.contentHash
  flat : loaded.card.IsFlat

theorem Disk.loadCard_sound {d : Disk} {path : Path} {loaded : LoadedCard}
    (h : d.loadCard path = .ok loaded) : loaded.IsSound := by
  rw [Disk.loadCard] at h
  split at h
  · cases h
  · split at h
    · rename_i hcard
      cases h
      exact ⟨rfl, Card.ofYaml_flat hcard⟩
    · cases h

namespace Corpus

variable {corpus : Corpus} {built : Corpus × List CardError}

/-- Every card lies under its own id, in id order. -/
structure IsKeyed (corpus : Corpus) : Prop where
  rising : corpus.cards.Rising
  keyed : ∀ entry ∈ corpus.cards, entry.1 = entry.2.id

theorem isKeyed_empty : empty.IsKeyed := ⟨.nil, fun _ h => (List.not_mem_nil h).elim⟩

theorem isKeyed_add (h : built.1.IsKeyed) (loaded : LoadedCard) :
    (add built loaded).1.IsKeyed := by
  rw [add]
  split
  · refine ⟨Keyed.rising_insert _ _ h.rising, fun entry hentry => ?_⟩
    rcases Keyed.mem_insert hentry with rfl | hentry
    · rfl
    · exact h.keyed entry hentry
  · exact h

theorem isKeyed_build (cards : List LoadedCard) : (build cards).1.IsKeyed :=
  List.foldlRecOn cards add (motive := fun built => built.1.IsKeyed) isKeyed_empty
    fun _ hbuilt loaded _ => isKeyed_add hbuilt loaded

theorem mem_of_mem_add {loaded : LoadedCard} {entry : String × LoadedCard}
    (h : entry ∈ (add built loaded).1.cards) :
    entry.2 = loaded ∨ entry ∈ built.1.cards := by
  rw [add] at h
  split at h
  · exact (Keyed.mem_insert h).imp_left fun heq => by rw [heq]
  · exact .inr h

/-- Nothing is in a corpus but the cards that it was built from. -/
theorem mem_of_mem_build {cards : List LoadedCard} {entry : String × LoadedCard}
    (h : entry ∈ (build cards).1.cards) : entry.2 ∈ cards := by
  have hall : ∀ entry ∈ (build cards).1.cards, entry.2 ∈ cards :=
    List.foldlRecOn cards add (motive := fun built => ∀ entry ∈ built.1.cards, entry.2 ∈ cards)
      (fun _ h => (List.not_mem_nil h).elim) fun _ hbuilt loaded hloaded entry hentry => by
        rcases mem_of_mem_add hentry with heq | hentry
        · rwa [heq]
        · exact hbuilt entry hentry
  exact hall entry h

structure IsSound (corpus : Corpus) : Prop where
  rising : corpus.cards.Rising
  keyed : ∀ entry ∈ corpus.cards, entry.1 = entry.2.id
  sound : ∀ entry ∈ corpus.cards, entry.2.IsSound

theorem build_sound {cards : List LoadedCard} (h : ∀ loaded ∈ cards, loaded.IsSound) :
    (build cards).1.IsSound :=
  ⟨(isKeyed_build cards).rising, (isKeyed_build cards).keyed,
    fun entry hentry => h entry.2 (mem_of_mem_build hentry)⟩

namespace IsSound

theorem isKeyed (h : corpus.IsSound) : corpus.IsKeyed := ⟨h.rising, h.keyed⟩

theorem loaded (h : corpus.IsSound) {loaded : LoadedCard} (hloaded : loaded ∈ corpus.toList) :
    loaded.IsSound := by
  obtain ⟨entry, hentry, rfl⟩ := List.mem_map.mp hloaded
  exact h.sound entry hentry

end IsSound

namespace IsKeyed

theorem find?_eq_some_iff (h : corpus.IsKeyed) {id : String} {loaded : LoadedCard} :
    corpus.find? id = some loaded ↔ loaded ∈ corpus.toList ∧ loaded.id = id := by
  rw [Corpus.find?, Keyed.find?_eq_some_iff h.rising]
  constructor
  · intro hentry
    exact ⟨List.mem_map.mpr ⟨_, hentry, rfl⟩, (h.keyed _ hentry).symm⟩
  · rintro ⟨hloaded, rfl⟩
    obtain ⟨entry, hentry, rfl⟩ := List.mem_map.mp hloaded
    rw [← h.keyed entry hentry]
    exact hentry

theorem find? (h : corpus.IsKeyed) {loaded : LoadedCard} (hloaded : loaded ∈ corpus.toList) :
    corpus.find? loaded.id = some loaded :=
  h.find?_eq_some_iff.mpr ⟨hloaded, rfl⟩

theorem rising_ids (h : corpus.IsKeyed) : (corpus.toList.map (·.id)).Pairwise (· < ·) := by
  have hkeys : corpus.toList.map (·.id) = corpus.cards.keys := by
    rw [toList, Keyed.values, Keyed.keys, List.map_map]
    exact List.map_congr_left fun entry hentry => (h.keyed entry hentry).symm
  rw [hkeys, Keyed.keys, List.pairwise_map]
  exact h.rising

end IsKeyed

end Corpus

/-! ## Sorting the results -/

namespace CorpusLoad

variable {lenient : Bool} {results : List (Except CardError LoadedCard)}

def failure? : Except CardError LoadedCard → Option CardError
  | .ok _ => none
  | .error e => some e

/-- The cards among the results of some files. -/
def cardsOf (results : List (Except CardError LoadedCard)) : List LoadedCard :=
  results.filterMap (·.toOption)

def failuresOf (results : List (Except CardError LoadedCard)) : List CardError :=
  results.filterMap failure?

theorem cardsOf_append (results more : List (Except CardError LoadedCard)) :
    cardsOf (results ++ more) = cardsOf results ++ cardsOf more :=
  List.filterMap_append

theorem failuresOf_append (results more : List (Except CardError LoadedCard)) :
    failuresOf (results ++ more) = failuresOf results ++ failuresOf more :=
  List.filterMap_append

theorem sift_concat (lenient : Bool) (results : List (Except CardError LoadedCard))
    (result : Except CardError LoadedCard) :
    sift lenient (results ++ [result]) = (sift lenient results).add lenient result := by
  rw [sift, List.foldl_concat, sift]

/-- Whatever comes between them, cards, errors and what is skipped stay in their order. -/
theorem sift_eq (lenient : Bool) (results : List (Except CardError LoadedCard)) :
    sift lenient results =
      { cards := cardsOf results
        errors := (failuresOf results).filter fun e => !(lenient && isSchemaError e)
        skipped := (failuresOf results).filter fun e => lenient && isSchemaError e } := by
  induction results using List.reverseRecOn with
  | nil => rfl
  | append_singleton results result ih =>
    rw [sift_concat, ih, cardsOf_append, failuresOf_append, List.filter_append, List.filter_append]
    cases result with
    | ok loaded =>
      have hcards : cardsOf [.ok loaded] = [loaded] := rfl
      have hfailures : failuresOf [.ok loaded] = [] := rfl
      rw [hcards, hfailures, List.filter_nil, List.filter_nil, List.append_nil, List.append_nil, Sifted.add]
    | error e =>
      have hcards : cardsOf [.error e] = [] := rfl
      have hfailures : failuresOf [.error e] = [e] := rfl
      simp only [hcards, hfailures, List.append_nil, List.filter_singleton, Sifted.add]
      cases lenient && isSchemaError e <;> simp

theorem ofResults_eq (lenient : Bool) (results : List (Except CardError LoadedCard)) :
    ofResults lenient results =
      { corpus := (Corpus.build (cardsOf results)).1
        errors := ((failuresOf results).filter fun e => !(lenient && isSchemaError e)) ++
          (Corpus.build (cardsOf results)).2
        skipped := (failuresOf results).filter fun e => lenient && isSchemaError e
        discovered := results.length } := by
  rw [ofResults, sift_eq]

theorem corpus_ofResults (lenient : Bool) (results : List (Except CardError LoadedCard)) :
    (ofResults lenient results).corpus = (Corpus.build (cardsOf results)).1 := by
  rw [ofResults_eq]

theorem mem_cardsOf {loaded : LoadedCard} : loaded ∈ cardsOf results ↔ .ok loaded ∈ results := by
  rw [cardsOf, List.mem_filterMap]
  constructor
  · rintro ⟨result, hresult, hsome⟩
    cases result with
    | error e => cases hsome
    | ok other =>
      cases hsome
      exact hresult
  · exact fun h => ⟨_, h, rfl⟩

theorem mem_failuresOf {e : CardError} : e ∈ failuresOf results ↔ .error e ∈ results := by
  rw [failuresOf, List.mem_filterMap]
  constructor
  · rintro ⟨result, hresult, hsome⟩
    cases result with
    | ok loaded => cases hsome
    | error other =>
      cases hsome
      exact hresult
  · exact fun h => ⟨_, h, rfl⟩

theorem ofResults_sound (h : ∀ loaded, .ok loaded ∈ results → loaded.IsSound) :
    (ofResults lenient results).corpus.IsSound := by
  rw [corpus_ofResults]
  exact Corpus.build_sound fun loaded hloaded => h loaded (mem_cardsOf.mp hloaded)

end CorpusLoad

/-! ## Loading the files -/

theorem Disk.loadCorpus_eq (cores : Nat) (options : LoadOptions) (d : Disk) (root : Path) :
    d.loadCorpus cores options root =
      (Discovery.cardPaths d root).map fun paths =>
        .ofResults options.lenient (paths.map d.loadCard) := by
  rw [Disk.loadCorpus]
  cases Discovery.cardPaths d root with
  | error e => rfl
  | ok paths =>
    simp only [bind, Except.bind, pure, Except.pure, Except.map,
      shareOut_eq_map (effectiveWorkers_pos _ _ _)]

/-- How many workers share the files makes no difference. -/
theorem Disk.loadCorpus_ok_iff {cores : Nat} {options : LoadOptions} {d : Disk} {root : Path}
    {load : CorpusLoad} :
    d.loadCorpus cores options root = .ok load ↔
      ∃ paths, Discovery.cardPaths d root = .ok paths ∧
        load = .ofResults options.lenient (paths.map d.loadCard) := by
  rw [Disk.loadCorpus_eq]
  cases Discovery.cardPaths d root with
  | error e => simp [Except.map]
  | ok paths => simp [Except.map, eq_comm]

theorem Disk.loadCorpus_sound {cores : Nat} {options : LoadOptions} {d : Disk} {root : Path}
    {load : CorpusLoad} (h : d.loadCorpus cores options root = .ok load) : load.corpus.IsSound := by
  obtain ⟨paths, _, rfl⟩ := Disk.loadCorpus_ok_iff.mp h
  refine CorpusLoad.ofResults_sound fun loaded hloaded => ?_
  obtain ⟨path, _, hload⟩ := List.mem_map.mp hloaded
  exact Disk.loadCard_sound hload

end Rulebook
