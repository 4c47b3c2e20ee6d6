import Mathlib.Data.List.Nodup
import Rulebook.Proofs.Resolution

/-!
# Resolution is an exact cover

Every agent is assigned exactly the active cards that its selector accepts, in id order. Every active
card is assigned to some agent or reported once as an orphan, and never both. Every default of an
assigned card that differs from the agent's own is reported once, and before the orphans.
-/

namespace Rulebook

set_option autoImplicit false

/-- Where a conflict is: which agent, which card, which default. -/
def DefaultsConflict.place (c : DefaultsConflict) : String × String × String :=
  (c.agent, c.rule, c.key)

theorem Corpus.IsKeyed.eq_of_id_eq {corpus : Corpus} (h : corpus.IsKeyed) {a b : LoadedCard}
    (ha : a ∈ corpus.toList) (hb : b ∈ corpus.toList) (hid : a.id = b.id) : a = b := by
  have hfound := h.find? ha
  rw [hid, h.find? hb] at hfound
  exact (Option.some.inj hfound).symm

namespace Resolution

variable {manifest : Manifest} {corpus : Corpus} {agent : Agent} {loaded : LoadedCard}
  {c : DefaultsConflict} {id : String} {path : Path}

/-! ## What resolution is to find -/

/-- An active card that the agent's selector accepts. -/
structure Matches (corpus : Corpus) (agent : Agent) (loaded : LoadedCard) : Prop where
  member : loaded ∈ corpus.toList
  active : loaded.isActive = true
  accepted : agent.selector.accepts loaded.card = true

/-- The agent and the card both declare a default, with different values. -/
structure Clash (agent : Agent) (loaded : LoadedCard) (c : DefaultsConflict) : Prop where
  agent_eq : c.agent = agent.id
  rule_eq : c.rule = loaded.id
  manifestValue : agent.policy.defaults.find? c.key = some c.manifestValue
  cardValue : loaded.card.defaults.find? c.key = some c.cardValue
  differ : c.manifestValue.same c.cardValue = false

/-- Some agent of the manifest is assigned the card. -/
def IsAssigned (manifest : Manifest) (r : Resolution) (loaded : LoadedCard) : Prop :=
  ∃ agent ∈ manifest.agents, loaded ∈ r.cardsFor agent.id

structure Covers (manifest : Manifest) (corpus : Corpus) (r : Resolution) : Prop where
  assigned_iff : ∀ agent ∈ manifest.agents, ∀ loaded,
    loaded ∈ r.cardsFor agent.id ↔ Matches corpus agent loaded
  /-- In id order, so each card once. -/
  ascending : ∀ agent ∈ manifest.agents,
    ((r.cardsFor agent.id).map (·.id)).Pairwise (· < ·)
  absent_iff : ∀ agent ∈ manifest.agents,
    (r.assignments.find? agent.id = none ↔ ∀ loaded, ¬ Matches corpus agent loaded)
  known : ∀ id ∈ r.assignments.keys, id ∈ manifest.agents.map (·.id)
  /-- One error for each agent without an assignment, in the order of the agents, and no other. -/
  errors : r.errors =
    (manifest.agents.filter fun agent => (r.assignments.find? agent.id).isNone).map
      fun agent => .emptyAgent agent.id agent.selector.text
  /-- An active card has gone to an agent or is reported as an orphan, once, with its own path. -/
  reported : ∀ loaded ∈ corpus.active,
    (IsAssigned manifest r loaded ∧ ∀ path, .orphan loaded.id path ∉ r.warnings) ∨
      (¬ IsAssigned manifest r loaded ∧ r.warnings.count (.orphan loaded.id loaded.path) = 1 ∧
        ∀ path, .orphan loaded.id path ∈ r.warnings → path = loaded.path)
  disabled : ∀ loaded ∈ corpus.disabled,
    ¬ IsAssigned manifest r loaded ∧ ∀ path, .orphan loaded.id path ∉ r.warnings
  /-- First the conflicts, each once, and then the orphans. -/
  warnings : ∃ (conflicts : List DefaultsConflict) (orphans : List ResolveWarning),
    r.warnings = conflicts.map .conflict ++ orphans ∧
    (conflicts.map (·.place)).Nodup ∧
    (∀ c, c ∈ conflicts ↔
      ∃ agent ∈ manifest.agents, ∃ loaded ∈ r.cardsFor agent.id, Clash agent loaded c) ∧
    ∀ w ∈ orphans, ∃ loaded ∈ corpus.active, w = .orphan loaded.id loaded.path

/-! ## Assignments and errors -/

theorem mem_selection_iff : loaded ∈ selection corpus agent ↔ Matches corpus agent loaded := by
  rw [selection, List.mem_filter, Corpus.active, List.mem_filter]
  constructor
  · rintro ⟨⟨hmember, hactive⟩, haccepted⟩
    exact ⟨hmember, hactive, haccepted⟩
  · rintro ⟨hmember, hactive, haccepted⟩
    exact ⟨⟨hmember, hactive⟩, haccepted⟩

theorem selection_eq_nil_iff :
    selection corpus agent = [] ↔ ∀ loaded, ¬ Matches corpus agent loaded := by
  simp only [List.eq_nil_iff_forall_not_mem, mem_selection_iff]

theorem isAssigned_resolve_iff (hm : manifest.IsKeyed) :
    IsAssigned manifest (resolve manifest corpus) loaded ↔
      ∃ agent ∈ manifest.agents, loaded ∈ selection corpus agent := by
  apply exists_congr
  intro agent
  refine and_congr_right fun hagent => ?_
  rw [cardsFor_resolve hm hagent]

theorem mem_keys_foldl_assignStep {agents : List Agent} {table : Keyed (List LoadedCard)}
    (h : id ∈ (agents.foldl (assignStep corpus) table).keys) :
    id ∈ table.keys ∨ id ∈ agents.map (·.id) := by
  induction agents generalizing table with
  | nil => exact .inl h
  | cons agent rest ih =>
    rw [List.map_cons, List.mem_cons]
    rcases ih h with h | h
    · rw [assignStep] at h
      split at h
      · exact .inl h
      · rcases (Keyed.mem_keys_insert _ _ _ _).mp h with heq | h
        · exact .inr (.inl heq)
        · exact .inl h
    · exact .inr (.inr h)

theorem known_resolve (h : id ∈ (resolve manifest corpus).assignments.keys) :
    id ∈ manifest.agents.map (·.id) := by
  rcases mem_keys_foldl_assignStep h with h | h
  · cases h
  · exact h

theorem errors_resolve (hm : manifest.IsKeyed) :
    (resolve manifest corpus).errors =
      (manifest.agents.filter fun agent =>
        ((resolve manifest corpus).assignments.find? agent.id).isNone).map
          fun agent => .emptyAgent agent.id agent.selector.text := by
  show emptyAgents manifest corpus = _
  rw [emptyAgents, filterMap_if_eq]
  refine congrArg _ (List.filter_congr fun agent hagent => ?_)
  rw [find?_resolve hm hagent]
  cases selection corpus agent <;> rfl

/-! ## Conflicts -/

/-- The conflicts of an agent with a card. -/
def clashes (agent : Agent) (loaded : LoadedCard) : List DefaultsConflict :=
  loaded.card.defaults.filterMap fun (key, cardValue) =>
    match agent.policy.defaults.find? key with
    | some manifestValue =>
      if manifestValue.same cardValue then none
      else some ⟨agent.id, loaded.id, key, manifestValue, cardValue⟩
    | none => none

theorem cardConflicts_eq (agent : Agent) (loaded : LoadedCard) :
    cardConflicts agent loaded = (clashes agent loaded).map .conflict := by
  rw [cardConflicts, clashes, List.map_filterMap]
  apply List.filterMap_congr
  rintro ⟨key, cardValue⟩ -
  dsimp only
  cases agent.policy.defaults.find? key with
  | none => rfl
  | some manifestValue => by_cases hsame : manifestValue.same cardValue = true <;> simp [hsame]

theorem mem_clashes_iff (hdefaults : loaded.card.defaults.Rising) :
    c ∈ clashes agent loaded ↔ Clash agent loaded c := by
  rw [clashes, List.mem_filterMap]
  constructor
  · rintro ⟨⟨key, cardValue⟩, hmem, hc⟩
    dsimp only at hc
    split at hc
    · rename_i manifestValue hfound
      split at hc
      · cases hc
      · rename_i hdiffer
        cases hc
        exact ⟨rfl, rfl, hfound, (Keyed.find?_eq_some_iff hdefaults).mpr hmem,
          Bool.not_eq_true _ ▸ hdiffer⟩
    · cases hc
  · intro hclash
    refine ⟨(c.key, c.cardValue), Keyed.mem_of_find? hclash.cardValue, ?_⟩
    simp [hclash.manifestValue, hclash.differ, ← hclash.agent_eq, ← hclash.rule_eq]

/-- What comes from items with distinct keys is distinct, if each part is and shows the key. -/
theorem nodup_flatMap_of_key {α β κ : Type} {xs : List α} {f : α → List β} {key : α → κ}
    (hkeys : (xs.map key).Nodup) (keyOf : β → κ) (heach : ∀ x ∈ xs, (f x).Nodup)
    (hkey : ∀ x ∈ xs, ∀ y ∈ f x, keyOf y = key x) : (xs.flatMap f).Nodup := by
  apply List.nodup_flatMap.mpr
  constructor
  · exact heach
  · refine (List.pairwise_map.mp hkeys).imp_of_mem fun {a b} ha hb hne => ?_
    apply List.disjoint_left.mpr
    intro y hya hyb
    apply hne
    rw [← hkey a ha y hya, hkey b hb y hyb]

theorem nodup_clashes (hdefaults : loaded.card.defaults.Rising) :
    ((clashes agent loaded).map (·.place)).Nodup := by
  have hkeys : ((clashes agent loaded).map (·.key)).Nodup := by
    refine hdefaults.nodup_keys.sublist (sublist_of_filterMap ?_ _)
    rintro ⟨key, cardValue⟩ c hc
    dsimp only at hc
    split at hc
    · split at hc
      · cases hc
      · cases hc
        rfl
    · cases hc
  apply List.Nodup.of_map fun place : String × String × String => place.2.2
  rw [List.map_map]
  exact hkeys

/-- All conflicts, by agent, card and key. -/
def allClashes (manifest : Manifest) (corpus : Corpus) : List DefaultsConflict :=
  manifest.agents.flatMap fun agent => (selection corpus agent).flatMap (clashes agent)

theorem warnings_eq (manifest : Manifest) (corpus : Corpus) :
    (resolve manifest corpus).warnings =
      (allClashes manifest corpus).map .conflict ++ orphanWarnings manifest corpus := by
  show manifest.agents.flatMap (conflicts corpus) ++ _ = _
  simp only [allClashes, List.map_flatMap, ← cardConflicts_eq]
  rfl

section

variable (hdefaults : ∀ loaded ∈ corpus.toList, loaded.card.defaults.Rising)
include hdefaults

theorem mem_clashes_selection_iff (hloaded : loaded ∈ selection corpus agent) :
    c ∈ clashes agent loaded ↔ Clash agent loaded c :=
  mem_clashes_iff (hdefaults loaded (mem_selection hloaded).1)

theorem mem_allClashes_iff :
    c ∈ allClashes manifest corpus ↔
      ∃ agent ∈ manifest.agents, ∃ loaded ∈ selection corpus agent, Clash agent loaded c := by
  simp only [allClashes, List.mem_flatMap]
  refine exists_congr fun agent => and_congr_right fun _ => exists_congr fun loaded => ?_
  exact and_congr_right fun hloaded => mem_clashes_selection_iff hdefaults hloaded

theorem nodup_allClashes (hm : manifest.IsKeyed) (hc : corpus.IsKeyed) :
    ((allClashes manifest corpus).map (·.place)).Nodup := by
  rw [allClashes, List.map_flatMap]
  apply nodup_flatMap_of_key hm.nodup_ids (fun place => place.1)
  · intro agent _
    rw [List.map_flatMap]
    apply nodup_flatMap_of_key (nodup_of_rising (rising_selection hc)) (fun place => place.2.1)
    · intro loaded hloaded
      exact nodup_clashes (hdefaults loaded (mem_selection hloaded).1)
    · intro loaded hloaded place hplace
      obtain ⟨c, hc, rfl⟩ := List.mem_map.mp hplace
      exact ((mem_clashes_selection_iff hdefaults hloaded).mp hc).rule_eq
  · intro agent _ place hplace
    obtain ⟨c, hc, rfl⟩ := List.mem_map.mp hplace
    obtain ⟨loaded, hloaded, hc⟩ := List.mem_flatMap.mp hc
    exact ((mem_clashes_selection_iff hdefaults hloaded).mp hc).agent_eq

end

/-! ## Orphans -/

theorem isSelected_iff (hc : corpus.IsKeyed) (hloaded : loaded ∈ corpus.toList) :
    isSelected manifest corpus loaded = true ↔
      ∃ agent ∈ manifest.agents, loaded ∈ selection corpus agent := by
  simp only [isSelected, List.any_eq_true, beq_iff_eq]
  refine exists_congr fun agent => and_congr_right fun _ => ?_
  constructor
  · rintro ⟨other, hother, hid⟩
    rwa [← hc.eq_of_id_eq (mem_selection hother).1 hloaded hid]
  · intro hselected
    exact ⟨loaded, hselected, rfl⟩

/-- The active cards that no agent gets. -/
def orphanCards (manifest : Manifest) (corpus : Corpus) : List LoadedCard :=
  corpus.active.filter (!isSelected manifest corpus ·)

theorem orphanWarnings_eq (manifest : Manifest) (corpus : Corpus) :
    orphanWarnings manifest corpus =
      (orphanCards manifest corpus).map fun loaded => .orphan loaded.id loaded.path :=
  rfl

theorem mem_orphanCards_iff (hm : manifest.IsKeyed) (hc : corpus.IsKeyed) :
    loaded ∈ orphanCards manifest corpus ↔
      loaded ∈ corpus.active ∧ ¬ IsAssigned manifest (resolve manifest corpus) loaded := by
  rw [orphanCards, List.mem_filter]
  refine and_congr_right fun hactive => ?_
  rw [isAssigned_resolve_iff hm, ← isSelected_iff hc (List.mem_of_mem_filter hactive)]
  simp

theorem mem_orphan_iff :
    .orphan id path ∈ (resolve manifest corpus).warnings ↔
      ∃ loaded ∈ orphanCards manifest corpus, loaded.id = id ∧ loaded.path = path := by
  rw [warnings_eq, orphanWarnings_eq, List.mem_append]
  simp

theorem rising_orphanCards (hc : corpus.IsKeyed) :
    ((orphanCards manifest corpus).map (·.id)).Pairwise (· < ·) :=
  hc.rising_ids.sublist ((List.filter_sublist.trans List.filter_sublist).map _)

theorem nodup_orphanWarnings (hc : corpus.IsKeyed) :
    (orphanWarnings manifest corpus).Nodup := by
  rw [orphanWarnings_eq]
  refine List.pairwise_map.mpr ((List.pairwise_map.mp (rising_orphanCards hc)).imp ?_)
  intro a b hlt heq
  rw [(ResolveWarning.orphan.inj heq).1] at hlt
  exact String.lt_irrefl _ hlt

theorem count_orphan (hc : corpus.IsKeyed) (hloaded : loaded ∈ orphanCards manifest corpus) :
    (resolve manifest corpus).warnings.count (.orphan loaded.id loaded.path) = 1 := by
  rw [warnings_eq, List.count_append]
  have hconflicts :
      ((allClashes manifest corpus).map ResolveWarning.conflict).count
        (.orphan loaded.id loaded.path) = 0 := by
    apply List.count_eq_zero_of_not_mem
    simp
  have horphans :
      (orphanWarnings manifest corpus).count (.orphan loaded.id loaded.path) = 1 := by
    apply List.count_eq_one_of_mem (nodup_orphanWarnings hc)
    exact List.mem_map_of_mem hloaded
  rw [hconflicts, horphans]

/-- An orphan warning that names a card of the corpus is about that card. -/
theorem orphan_eq (hm : manifest.IsKeyed) (hc : corpus.IsKeyed) (hloaded : loaded ∈ corpus.toList)
    (h : .orphan loaded.id path ∈ (resolve manifest corpus).warnings) :
    path = loaded.path ∧ loaded ∈ corpus.active ∧
      ¬ IsAssigned manifest (resolve manifest corpus) loaded := by
  obtain ⟨other, hother, hid, rfl⟩ := mem_orphan_iff.mp h
  obtain ⟨hactive, hnot⟩ := (mem_orphanCards_iff hm hc).mp hother
  obtain rfl := hc.eq_of_id_eq (List.mem_of_mem_filter hactive) hloaded hid
  exact ⟨rfl, hactive, hnot⟩

theorem reported_resolve (hm : manifest.IsKeyed) (hc : corpus.IsKeyed)
    (hactive : loaded ∈ corpus.active) :
    let r := resolve manifest corpus
    (IsAssigned manifest r loaded ∧ ∀ path, .orphan loaded.id path ∉ r.warnings) ∨
      (¬ IsAssigned manifest r loaded ∧ r.warnings.count (.orphan loaded.id loaded.path) = 1 ∧
        ∀ path, .orphan loaded.id path ∈ r.warnings → path = loaded.path) := by
  intro r
  have hloaded := List.mem_of_mem_filter hactive
  by_cases hassigned : IsAssigned manifest r loaded
  · left
    refine ⟨hassigned, fun path hmem => ?_⟩
    exact (orphan_eq hm hc hloaded hmem).2.2 hassigned
  · right
    refine ⟨hassigned, ?_, fun path hmem => (orphan_eq hm hc hloaded hmem).1⟩
    exact count_orphan hc ((mem_orphanCards_iff hm hc).mpr ⟨hactive, hassigned⟩)

theorem not_reported_of_disabled (hm : manifest.IsKeyed) (hc : corpus.IsKeyed)
    (hdisabled : loaded ∈ corpus.disabled) :
    let r := resolve manifest corpus
    ¬ IsAssigned manifest r loaded ∧ ∀ path, .orphan loaded.id path ∉ r.warnings := by
  intro r
  obtain ⟨hloaded, hinactive⟩ := List.mem_filter.mp hdisabled
  constructor
  · intro hassigned
    obtain ⟨agent, -, hselected⟩ := (isAssigned_resolve_iff hm).mp hassigned
    rw [(mem_selection hselected).2] at hinactive
    cases hinactive
  · intro path hmem
    have hactive := (List.mem_filter.mp (orphan_eq hm hc hloaded hmem).2.1).2
    rw [hactive] at hinactive
    cases hinactive

/-! ## The whole -/

/-- Whatever the agents and the cards, resolution is an exact cover. The defaults of a card are a map, so
their keys rise. -/
theorem resolve_covers (agents : List Agent) (cards : List LoadedCard)
    (hdefaults : ∀ loaded ∈ cards, loaded.card.defaults.Rising) :
    let manifest := Manifest.ofAgents agents
    let corpus := (Corpus.build cards).1
    Covers manifest corpus (resolve manifest corpus) := by
  intro manifest corpus
  have hm : manifest.IsKeyed := Manifest.isKeyed_ofAgents agents
  have hc : corpus.IsKeyed := Corpus.isKeyed_build cards
  have hrising : ∀ loaded ∈ corpus.toList, loaded.card.defaults.Rising := by
    intro loaded hloaded
    obtain ⟨entry, hentry, rfl⟩ := List.mem_map.mp hloaded
    exact hdefaults _ (Corpus.mem_of_mem_build hentry)
  constructor
  · intro agent hagent loaded
    rw [cardsFor_resolve hm hagent, mem_selection_iff]
  · intro agent hagent
    rw [cardsFor_resolve hm hagent]
    exact rising_selection hc
  · intro agent hagent
    rw [find?_resolve hm hagent, ← selection_eq_nil_iff]
    split <;> simp [*]
  · exact fun id hid => known_resolve hid
  · exact errors_resolve hm
  · exact fun loaded hactive => reported_resolve hm hc hactive
  · exact fun loaded hdisabled => not_reported_of_disabled hm hc hdisabled
  · refine ⟨allClashes manifest corpus, orphanWarnings manifest corpus, warnings_eq _ _,
      nodup_allClashes hrising hm hc, fun c => ?_, fun w hw => ?_⟩
    · rw [mem_allClashes_iff hrising]
      refine exists_congr fun agent => and_congr_right fun hagent => ?_
      rw [cardsFor_resolve hm hagent]
    · obtain ⟨loaded, hloaded, rfl⟩ := List.mem_map.mp hw
      exact ⟨loaded, List.mem_of_mem_filter hloaded, rfl⟩

/-- Cards under a default that the agent sets differently. -/
def cardAt (id scope : String) (disabled : Bool) : LoadedCard :=
  ⟨⟨id, "A rule", .low, scope, "Keep to it.", ["d"], ["e"], [], ["v"], [], disabled,
    [("level", .string "high")]⟩, ⟨id⟩, ""⟩

def agentFor (id scope : String) : Agent :=
  ⟨id, "An agent", ⟨[.scopeIs scope]⟩, ⟨["*"], [("level", .string "low")]⟩⟩

/-- An agent with a conflict, an agent without cards, an orphan and a disabled card. -/
theorem resolve_covers_mixed :
    let agents := [agentFor "web" "web", agentFor "idle" "none"]
    let cards := [cardAt "A-B-002" "web" false, cardAt "A-B-001" "core" false,
      cardAt "A-B-003" "web" true]
    let manifest := Manifest.ofAgents agents
    let corpus := (Corpus.build cards).1
    (∀ loaded ∈ cards, loaded.card.defaults.Rising) ∧
      Covers manifest corpus (resolve manifest corpus) ∧
      (resolve manifest corpus).errors = [.emptyAgent "idle" "scope == \"none\""] ∧
      (resolve manifest corpus).warnings =
        [.conflict ⟨"web", "A-B-002", "level", .string "low", .string "high"⟩,
          .orphan "A-B-001" ⟨"A-B-001"⟩] := by
  intro agents cards manifest corpus
  have hdefaults : ∀ loaded ∈ cards, loaded.card.defaults.Rising := by
    simp [cards, cardAt, Keyed.Rising]
  exact ⟨hdefaults, resolve_covers agents cards hdefaults, by decide, by decide⟩

end Resolution

end Rulebook
