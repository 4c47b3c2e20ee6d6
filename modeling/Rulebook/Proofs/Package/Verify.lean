import Rulebook.Package.Verify
import Rulebook.Proofs.Basic
import Rulebook.Proofs.Resolution

/-!
# What it means that nothing is found

Nothing is found in a package by itself if it is consistent, nothing with a corpus if the corpus still
has its cards, and nothing with a manifest if its rules are the active cards that its agent selects. All
this holds of a package that was made of an agent's selection.
-/

namespace Rulebook.Package

set_option autoImplicit false

variable {cards : List LoadedCard} {corpus : Corpus} {p : Package}

theorem inOrder_of_rising (h : (cards.map (·.id)).Pairwise (· < ·)) : inOrder cards = cards :=
  mergeSort_of_rising h

theorem Hooks.rising_addTool {hooks : Hooks} (h : hooks.lists.Rising) (entry : String × List String) :
    (hooks.addTool entry).lists.Rising := by
  refine List.foldlRecOn entry.2 _ (motive := fun hooks : Hooks => hooks.lists.Rising)
    (Keyed.rising_insert _ _ h) fun hooks h id _ => ?_
  rw [add]
  split
  · exact h
  · exact Keyed.rising_insert _ _ h

theorem rising_mergeHooks (cards : List Card) : (mergeHooks cards).Rising :=
  List.foldlRecOn cards _ (motive := fun hooks : Hooks => hooks.lists.Rising) .nil fun _ h card _ =>
    List.foldlRecOn card.detect _ (motive := fun hooks : Hooks => hooks.lists.Rising) h fun _ h entry _ =>
      Hooks.rising_addTool h entry

/-! ## Findings -/

theorem countFindings_eq_nil_iff :
    p.countFindings = [] ↔ p.rules ≠ [] ∧ p.rules.length = p.rulesDetail.length := by
  rw [countFindings, List.append_eq_nil_iff]
  refine and_congr ?_ ?_
  · cases p.rules <;> simp
  · split <;> simp_all

theorem alignmentFindings_eq_nil_iff :
    p.alignmentFindings = [] ↔
      ∀ pair ∈ p.rules.zip p.rulesDetail, pair.1 = pair.2.id := by
  refine filterMap_zipIdx_eq_nil_iff (fun pair i => ?_) _
  dsimp only
  split <;> simp_all

/-- As many rules as cards, each the card's id. -/
theorem rules_eq_iff :
    p.rules = p.rulesDetail.map (·.id) ↔
      p.rules.length = p.rulesDetail.length ∧
        ∀ pair ∈ p.rules.zip p.rulesDetail, pair.1 = pair.2.id := by
  rw [← List.forall₂_eq_eq_eq, List.forall₂_map_right_iff, List.forall₂_iff_zip]
  exact and_congr_right fun _ => ⟨fun h pair hpair => h hpair, fun h _ _ hpair => h _ hpair⟩

theorem orderFindings_eq_nil_iff : p.orderFindings = [] ↔ p.rules.Pairwise (· < ·) := by
  have hneighbours : p.orderFindings = [] ↔
      ∀ pair ∈ p.rules.zip (p.rules.drop 1), pair.1 < pair.2 := by
    refine filterMap_zipIdx_eq_nil_iff (fun pair i => ?_) _
    dsimp only
    split <;> simp_all
  rw [hneighbours]
  constructor
  · intro h
    refine pairwise_of_zip_drop (fun x y z hxy hyz => ?_) fun x y hmem => h (x, y) hmem
    exact String.lt_trans hxy hyz
  · rintro h ⟨x, y⟩ hmem
    exact rel_of_mem_zip_drop h hmem

theorem digestFindings_eq_nil_iff : p.digestFindings = [] ↔ p.computedDigest = p.sourceDigest := by
  rw [digestFindings]
  split <;> simp_all

theorem hookFindings_eq_nil_iff :
    p.hookFindings = [] ↔ mergeHooks p.rulesDetail = p.validationHooks := by
  rw [hookFindings]
  split <;> simp_all

/-- A package that agrees with itself. -/
structure IsConsistent (p : Package) : Prop where
  nonempty : p.rules ≠ []
  aligned : p.rules = p.rulesDetail.map (·.id)
  rising : p.rules.Pairwise (· < ·)
  digest : p.computedDigest = p.sourceDigest
  hooks : mergeHooks p.rulesDetail = p.validationHooks

theorem verify_eq_append (corpus : Option Corpus) :
    p.verify corpus = p.verify none ++
      match corpus with
      | some corpus => p.rulesDetail.filterMap (driftFinding corpus)
      | none => [] := by
  cases corpus <;> simp [verify]

theorem verify_none_eq_nil_iff : p.verify none = [] ↔ p.IsConsistent := by
  have hparts : p.verify none = [] ↔ p.countFindings = [] ∧ p.alignmentFindings = [] ∧
      p.orderFindings = [] ∧ p.digestFindings = [] ∧ p.hookFindings = [] := by
    simp [verify]
  rw [hparts, countFindings_eq_nil_iff, alignmentFindings_eq_nil_iff, orderFindings_eq_nil_iff,
    digestFindings_eq_nil_iff, hookFindings_eq_nil_iff]
  constructor
  · rintro ⟨⟨hnonempty, hlength⟩, haligned, hrising, hdigest, hhooks⟩
    exact ⟨hnonempty, rules_eq_iff.mpr ⟨hlength, haligned⟩, hrising, hdigest, hhooks⟩
  · intro h
    obtain ⟨hlength, haligned⟩ := rules_eq_iff.mp h.aligned
    exact ⟨⟨h.nonempty, hlength⟩, haligned, h.rising, h.digest, h.hooks⟩

/-- The corpus has the card, with the same content and not disabled. -/
def Includes (corpus : Corpus) (card : Card) : Prop :=
  ∃ current, corpus.find? card.id = some current ∧ current.isActive = true ∧
    current.contentHash = card.contentHash

theorem driftFinding_eq_none_iff {card : Card} :
    driftFinding corpus card = none ↔ Includes corpus card := by
  rw [driftFinding, Includes]
  cases corpus.find? card.id with
  | none => simp
  | some current => cases hactive : current.isActive <;> simp [hactive]

theorem verify_some_eq_nil_iff :
    p.verify (some corpus) = [] ↔
      p.IsConsistent ∧ ∀ card ∈ p.rulesDetail, Includes corpus card := by
  rw [verify_eq_append, List.append_eq_nil_iff, verify_none_eq_nil_iff, List.filterMap_eq_nil_iff]
  exact and_congr_right fun _ => forall₂_congr fun _ _ => driftFinding_eq_none_iff

theorem mem_ruleSet_iff {rules : List String} {id : String} : id ∈ ruleSet rules ↔ id ∈ rules := by
  rw [ruleSet, Keyed.mem_keys_ofList, List.map_map]
  simp [Function.comp_def]

/-- The rules are the agent's, those apart that the corpus has no active card for. -/
theorem verifySelection_eq_nil_iff {manifest : Manifest} :
    p.verifySelection manifest corpus = [] ↔
      ∃ agent, manifest.find? p.id = some agent ∧
        (∀ loaded ∈ Resolution.selection corpus agent, loaded.id ∈ p.rules) ∧
        ∀ id ∈ p.rules, (corpus.find? id).any (·.isActive) = true →
          id ∈ (Resolution.selection corpus agent).map (·.id) := by
  rw [verifySelection]
  cases manifest.find? p.id with
  | none => simp
  | some agent =>
    have hempty {added dropped : List String} :
        (if (added.isEmpty && dropped.isEmpty) = true then []
          else [Finding.selectionChanged added dropped]) = [] ↔ added = [] ∧ dropped = [] := by
      cases added <;> cases dropped <;> simp
    have hadded (ids : List String) :
        ids.filter (· ∉ p.rules) = [] ↔ ∀ id ∈ ids, id ∈ p.rules := by
      simp [List.filter_eq_nil_iff]
    have hdropped (ids : List String) :
        ((ruleSet p.rules).filter fun id =>
            (id ∉ ids : Bool) && (corpus.find? id).any (·.isActive)) = [] ↔
          ∀ id ∈ p.rules, (corpus.find? id).any (·.isActive) = true → id ∈ ids := by
      rw [List.filter_eq_nil_iff]
      refine forall_congr' fun id => imp_congr mem_ruleSet_iff ?_
      by_cases hid : id ∈ ids <;> simp [hid]
    dsimp only
    rw [hempty, hadded, hdropped, List.forall_mem_map]
    simp only [Option.some.injEq, exists_eq_left']

/-! ## Packages that were made of cards -/

section

variable (agent : Agent) (stamp : Stamp) (attribution : String)

theorem isConsistent_ofCards (hne : cards ≠ []) (hrising : (cards.map (·.id)).Pairwise (· < ·))
    (hhashed : ∀ loaded ∈ cards, loaded.contentHash = loaded.card.contentHash) :
    (ofCards agent cards stamp attribution).IsConsistent := by
  refine ⟨fun hnil => hne (List.map_eq_nil_iff.mp hnil), ?_, hrising, ?_, rfl⟩
  · simp [ofCards, LoadedCard.id, Function.comp_def]
  · have hpairs : (cards.map (·.card)).map (fun card => (card.id, card.contentHash)) =
        cards.map fun loaded => (loaded.id, loaded.contentHash) := by
      rw [List.map_map]
      refine List.map_congr_left fun loaded hloaded => ?_
      rw [hhashed loaded hloaded]
      rfl
    exact congrArg Rulebook.sourceDigest hpairs

theorem verify_ofCards (hne : cards ≠ []) (hrising : (cards.map (·.id)).Pairwise (· < ·))
    (hhashed : ∀ loaded ∈ cards, loaded.contentHash = loaded.card.contentHash)
    (hfind : ∀ loaded ∈ cards, corpus.find? loaded.id = some loaded)
    (hactive : ∀ loaded ∈ cards, loaded.isActive = true) :
    (ofCards agent cards stamp attribution).verify (some corpus) = [] := by
  refine verify_some_eq_nil_iff.mpr
    ⟨isConsistent_ofCards agent stamp attribution hne hrising hhashed, fun card hcard => ?_⟩
  obtain ⟨loaded, hloaded, rfl⟩ := List.mem_map.mp hcard
  exact ⟨loaded, hfind loaded hloaded, hactive loaded hloaded, hhashed loaded hloaded⟩

variable {agent}

theorem verifySelection_ofCards {manifest : Manifest} (hfind : manifest.find? agent.id = some agent) :
    (ofCards agent (Resolution.selection corpus agent) stamp attribution).verifySelection manifest
      corpus = [] :=
  verifySelection_eq_nil_iff.mpr ⟨agent, hfind, fun _ hloaded => List.mem_map_of_mem hloaded,
    fun _ hid _ => hid⟩

end

end Rulebook.Package
