import Rulebook.Proofs.Package.Verify
import Rulebook.Proofs.Resolution.Cover

/-!
# Every lost rule is accounted for

A rule that an agent has lost since its package was built is gone from the corpus, disabled in it, or
dropped by the agent's selector. Verification says exactly one of the three, and says it once; of a rule
that the agent still gets it says none of them.
-/

namespace Rulebook.Package

set_option autoImplicit false

variable {corpus : Corpus} {agent : Agent} {manifest : Manifest} {p : Package} {id : String}

/-- The agent gets an active card of this id. -/
def Selects (corpus : Corpus) (agent : Agent) (id : String) : Prop :=
  ∃ loaded, Resolution.Matches corpus agent loaded ∧ loaded.id = id

theorem mem_selection_ids_iff :
    id ∈ (Resolution.selection corpus agent).map (·.id) ↔ Selects corpus agent id := by
  rw [List.mem_map]
  exact exists_congr fun loaded => and_congr_left fun _ => Resolution.mem_selection_iff

theorem Selects.active (hcorpus : corpus.IsKeyed) (h : Selects corpus agent id) :
    ∃ loaded, corpus.find? id = some loaded ∧ loaded.isActive = true := by
  obtain ⟨loaded, hmatches, rfl⟩ := h
  exact ⟨loaded, hcorpus.find? hmatches.member, hmatches.active⟩

/-! ## Cards that are gone or disabled -/

/-- A finding about one id comes up as often as the id does, or not at all. -/
theorem count_drift {finding : Finding} {said : Prop} [Decidable said]
    (h : ∀ card, driftFinding corpus card = some finding ↔ card.id = id ∧ said)
    (cards : List Card) :
    (cards.filterMap (driftFinding corpus)).count finding =
      if said then (cards.map (·.id)).count id else 0 := by
  have hcount : (cards.filterMap (driftFinding corpus)).count finding =
      cards.countP fun card => decide (card.id = id ∧ said) := by
    rw [List.count_filterMap]
    exact List.countP_congr fun card _ => by simp [h card]
  rw [hcount]
  by_cases hsaid : said
  · rw [if_pos hsaid, List.count, List.countP_map]
    exact List.countP_congr fun card _ => by simp [hsaid]
  · rw [if_neg hsaid, List.countP_eq_zero]
    simp [hsaid]

theorem driftFinding_eq_removed_iff {card : Card} :
    driftFinding corpus card = some (.removed id) ↔ card.id = id ∧ corpus.find? id = none := by
  rw [driftFinding]
  constructor
  · intro h
    split at h
    · rename_i hfind
      cases h
      exact ⟨rfl, hfind⟩
    · split at h
      · cases h
      · split at h <;> cases h
  · rintro ⟨rfl, hfind⟩
    rw [hfind]

theorem driftFinding_eq_disabled_iff {card : Card} :
    driftFinding corpus card = some (.disabled id) ↔
      card.id = id ∧ (corpus.find? id).any (!·.isActive) = true := by
  rw [driftFinding]
  constructor
  · intro h
    split at h
    · cases h
    · rename_i current hfind
      split at h
      · rename_i hactive
        cases h
        exact ⟨rfl, by rw [hfind]; exact hactive⟩
      · split at h <;> cases h
  · rintro ⟨rfl, hdisabled⟩
    cases hfind : corpus.find? card.id with
    | none =>
      rw [hfind] at hdisabled
      cases hdisabled
    | some current =>
      rw [hfind] at hdisabled
      exact if_pos hdisabled

/-- With nothing else to be found, verification with a corpus finds the drift of the cards. -/
theorem verify_some_of_clean (h : p.verify none = []) (corpus : Corpus) :
    p.verify (some corpus) = p.rulesDetail.filterMap (driftFinding corpus) := by
  rw [verify_eq_append, h, List.nil_append]

/-! ## Rules that are new or dropped -/

/-- Rules that the agent would get now and the package has not. -/
def addedRules (corpus : Corpus) (agent : Agent) (p : Package) : List String :=
  ((Resolution.selection corpus agent).map (·.id)).filter (· ∉ p.rules)

/-- Rules with an active card that the agent would not get any more. -/
def droppedRules (corpus : Corpus) (agent : Agent) (p : Package) : List String :=
  (ruleSet p.rules).filter fun id =>
    id ∉ (Resolution.selection corpus agent).map (·.id) && (corpus.find? id).any (·.isActive)

theorem verifySelection_eq (hagent : manifest.find? p.id = some agent) (corpus : Corpus) :
    p.verifySelection manifest corpus =
      if addedRules corpus agent p = [] ∧ droppedRules corpus agent p = [] then []
      else [.selectionChanged (addedRules corpus agent p) (droppedRules corpus agent p)] := by
  have hempty : ((addedRules corpus agent p).isEmpty && (droppedRules corpus agent p).isEmpty) = true ↔
      addedRules corpus agent p = [] ∧ droppedRules corpus agent p = [] := by
    rw [Bool.and_eq_true, List.isEmpty_iff, List.isEmpty_iff]
  rw [verifySelection, hagent]
  exact if_congr hempty rfl rfl

theorem mem_addedRules_iff :
    id ∈ addedRules corpus agent p ↔ Selects corpus agent id ∧ id ∉ p.rules := by
  rw [addedRules, List.mem_filter, mem_selection_ids_iff, decide_eq_true_iff]

theorem mem_droppedRules_iff :
    id ∈ droppedRules corpus agent p ↔
      id ∈ p.rules ∧ ¬ Selects corpus agent id ∧ (corpus.find? id).any (·.isActive) = true := by
  rw [droppedRules, List.mem_filter, mem_ruleSet_iff, Bool.and_eq_true, decide_eq_true_iff,
    mem_selection_ids_iff]

theorem rising_addedRules (hcorpus : corpus.IsKeyed) :
    (addedRules corpus agent p).Pairwise (· < ·) :=
  (Resolution.rising_selection hcorpus).filter _

theorem rising_ruleSet (rules : List String) : (ruleSet rules).Pairwise (· < ·) :=
  List.pairwise_map.mpr (Keyed.rising_ofList _)

theorem rising_droppedRules : (droppedRules corpus agent p).Pairwise (· < ·) :=
  (rising_ruleSet p.rules).filter _

theorem count_droppedRules :
    (droppedRules corpus agent p).count id = if id ∈ droppedRules corpus agent p then 1 else 0 :=
  (nodup_of_rising rising_droppedRules).count

/-! ## All together -/

/-- How often a rule is reported as lost, in any of the three ways. -/
def timesLost (corpus : Corpus) (p : Package) (dropped : List String) (id : String) : Nat :=
  (p.verify (some corpus)).count (.removed id) + (p.verify (some corpus)).count (.disabled id) +
    dropped.count id

theorem timesLost_eq (hclean : p.verify none = []) :
    timesLost corpus p (droppedRules corpus agent p) id =
      (if corpus.find? id = none then p.rules.count id else 0) +
        (if (corpus.find? id).any (!·.isActive) = true then p.rules.count id else 0) +
        if id ∈ droppedRules corpus agent p then 1 else 0 := by
  rw [timesLost, verify_some_of_clean hclean,
    count_drift (fun _ => driftFinding_eq_removed_iff),
    count_drift (fun _ => driftFinding_eq_disabled_iff), count_droppedRules,
    (verify_none_eq_nil_iff.mp hclean).aligned]

theorem count_rules (hclean : p.verify none = []) (id : String) :
    p.rules.count id = if id ∈ p.rules then 1 else 0 :=
  (nodup_of_rising (verify_none_eq_nil_iff.mp hclean).rising).count

theorem timesLost_of_mem (hclean : p.verify none = []) (hmem : id ∈ p.rules)
    (hlost : ¬ Selects corpus agent id) :
    timesLost corpus p (droppedRules corpus agent p) id = 1 := by
  have hdropped : id ∈ droppedRules corpus agent p ↔
      (corpus.find? id).any (·.isActive) = true := by
    rw [mem_droppedRules_iff]
    exact ⟨fun h => h.2.2, fun h => ⟨hmem, hlost, h⟩⟩
  rw [timesLost_eq hclean, count_rules hclean, if_pos hmem]
  -- gone, disabled or active: each makes one of the three counts one and the others zero
  cases hfind : corpus.find? id with
  | none => simp [hdropped, hfind]
  | some current => cases hactive : current.isActive <;> simp [hdropped, hfind, hactive]

theorem timesLost_of_selects (hclean : p.verify none = []) (hcorpus : corpus.IsKeyed)
    (hselects : Selects corpus agent id) :
    timesLost corpus p (droppedRules corpus agent p) id = 0 := by
  obtain ⟨current, hfind, hactive⟩ := hselects.active hcorpus
  have hdropped : id ∉ droppedRules corpus agent p :=
    fun hmem => (mem_droppedRules_iff.mp hmem).2.1 hselects
  rw [timesLost_eq hclean, hfind]
  simp [hactive, hdropped]

theorem timesLost_of_not_mem (hclean : p.verify none = []) (hmem : id ∉ p.rules) :
    timesLost corpus p (droppedRules corpus agent p) id = 0 := by
  have hdropped : id ∉ droppedRules corpus agent p :=
    fun h => hmem (mem_droppedRules_iff.mp h).1
  rw [timesLost_eq hclean, count_rules hclean, if_neg hmem, if_neg hdropped]
  simp only [ite_self]

/-- What the findings about a package say of its rules and of those that its agent gets now. -/
structure Accounts (corpus : Corpus) (agent : Agent) (p : Package) (added dropped : List String) :
    Prop where
  /-- One finding for a rule that the agent does not get any more. -/
  lost : ∀ id ∈ p.rules, ¬ Selects corpus agent id → timesLost corpus p dropped id = 1
  kept : ∀ id, Selects corpus agent id → timesLost corpus p dropped id = 0
  /-- Nothing is said to be lost that was not there. -/
  others : ∀ id, id ∉ p.rules → timesLost corpus p dropped id = 0
  added_iff : ∀ id, id ∈ added ↔ Selects corpus agent id ∧ id ∉ p.rules
  rising_added : added.Pairwise (· < ·)
  rising_dropped : dropped.Pairwise (· < ·)
  disjoint : ∀ id ∈ added, id ∉ dropped

/-- In a package in which nothing is found by itself, every lost rule is reported once, by the corpus or
by the selection, and every new one by the selection, which is reported only if it has changed. -/
theorem lost_rules_reported_once (cards : List LoadedCard) (hclean : p.verify none = [])
    (hagent : manifest.find? p.id = some agent) :
    let corpus := (Corpus.build cards).1
    ∃ added dropped, Accounts corpus agent p added dropped ∧
      p.verifySelection manifest corpus =
        if added = [] ∧ dropped = [] then [] else [.selectionChanged added dropped] := by
  intro corpus
  have hcorpus : corpus.IsKeyed := Corpus.isKeyed_build cards
  refine ⟨addedRules corpus agent p, droppedRules corpus agent p, ?_, verifySelection_eq hagent _⟩
  constructor
  · exact fun id hmem hlost => timesLost_of_mem hclean hmem hlost
  · exact fun id hselects => timesLost_of_selects hclean hcorpus hselects
  · exact fun id hmem => timesLost_of_not_mem hclean hmem
  · exact fun id => mem_addedRules_iff
  · exact rising_addedRules hcorpus
  · exact rising_droppedRules
  · intro id hadded hdropped
    exact (mem_addedRules_iff.mp hadded).2 (mem_droppedRules_iff.mp hdropped).1

/-- A package of four cards of one scope. -/
def fourCards : Package :=
  ofCards (Resolution.agentFor "web" "web")
    (["A-B-001", "A-B-002", "A-B-003", "A-B-004"].map fun id =>
      .ofCard (Resolution.cardAt id "web" false).card ⟨id⟩) ⟨0, "1.0"⟩ ""

/-- The first card is gone, the second disabled, the third of another scope, and there is a fifth. -/
theorem lost_rules_reported_once_mixed :
    let agent := Resolution.agentFor "web" "web"
    let manifest := Manifest.ofAgents [agent]
    let corpus := (Corpus.build [Resolution.cardAt "A-B-002" "web" true,
      Resolution.cardAt "A-B-003" "core" false, Resolution.cardAt "A-B-004" "web" false,
      Resolution.cardAt "A-B-005" "web" false]).1
    fourCards.verify none = [] ∧ manifest.find? fourCards.id = some agent ∧
      fourCards.verifySelection manifest corpus = [.selectionChanged ["A-B-005"] ["A-B-003"]] ∧
      Accounts corpus agent fourCards ["A-B-005"] ["A-B-003"] := by
  intro agent manifest corpus
  have hclean : fourCards.verify none = [] :=
    verify_none_eq_nil_iff.mpr (isConsistent_ofCards _ _ _ (by simp)
      (by decide : ["A-B-001", "A-B-002", "A-B-003", "A-B-004"].Pairwise (· < ·))
      (List.forall_mem_map.mpr fun _ _ => rfl))
  have hagent : manifest.find? fourCards.id = some agent := by decide
  have hselection : fourCards.verifySelection manifest corpus =
      [.selectionChanged ["A-B-005"] ["A-B-003"]] := by decide
  refine ⟨hclean, hagent, hselection, ?_⟩
  obtain ⟨added, dropped, haccounts, heq⟩ := lost_rules_reported_once
    [Resolution.cardAt "A-B-002" "web" true, Resolution.cardAt "A-B-003" "core" false,
      Resolution.cardAt "A-B-004" "web" false, Resolution.cardAt "A-B-005" "web" false] hclean hagent
  rw [hselection] at heq
  split at heq
  · cases heq
  · cases heq
    exact haccounts

end Rulebook.Package
