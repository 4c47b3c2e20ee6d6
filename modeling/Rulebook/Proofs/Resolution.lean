import Rulebook.Proofs.Corpus.Basic
import Rulebook.Proofs.Manifest
import Rulebook.Resolution

/-!
# Who gets which cards

Every agent of a manifest is assigned its selection, and nothing else: active cards of the
corpus by rising id.
-/

namespace Rulebook.Resolution

set_option autoImplicit false

variable {corpus : Corpus} {agent : Agent}

theorem mem_selection {loaded : LoadedCard} (h : loaded ∈ selection corpus agent) :
    loaded ∈ corpus.toList ∧ loaded.isActive = true := by
  obtain ⟨hactive, _⟩ := List.mem_filter.mp h
  exact List.mem_filter.mp hactive

theorem rising_selection (h : corpus.IsKeyed) :
    ((selection corpus agent).map (·.id)).Pairwise (· < ·) :=
  h.rising_ids.sublist ((List.filter_sublist.trans List.filter_sublist).map _)

/-- One step of assigning cards. -/
def assignStep (corpus : Corpus) (table : Keyed (List LoadedCard)) (agent : Agent) :
    Keyed (List LoadedCard) :=
  if (selection corpus agent).isEmpty then table else table.insert agent.id (selection corpus agent)

theorem find?_assignStep (table : Keyed (List LoadedCard)) (agent : Agent) (id : String) :
    (assignStep corpus table agent).find? id =
      if agent.id = id ∧ selection corpus agent ≠ [] then some (selection corpus agent)
      else table.find? id := by
  rw [assignStep]
  by_cases hempty : selection corpus agent = []
  · simp [hempty]
  · rw [if_neg (by simpa using hempty), Keyed.find?_insert]
    simp [hempty]

theorem find?_assign_of_not_mem {agents : List Agent} {id : String} (h : id ∉ agents.map (·.id))
    (table : Keyed (List LoadedCard)) :
    (agents.foldl (assignStep corpus) table).find? id = table.find? id := by
  induction agents generalizing table with
  | nil => rfl
  | cons agent rest ih =>
    rw [List.map_cons, List.mem_cons, not_or] at h
    rw [List.foldl_cons, ih h.2, find?_assignStep, if_neg fun hid => h.1 hid.1.symm]

theorem find?_assign {agents : List Agent} (hdistinct : (agents.map (·.id)).Nodup)
    (hagent : agent ∈ agents) {table : Keyed (List LoadedCard)} (hnone : table.find? agent.id = none) :
    (agents.foldl (assignStep corpus) table).find? agent.id =
      if selection corpus agent = [] then none else some (selection corpus agent) := by
  induction agents generalizing table with
  | nil => cases hagent
  | cons first rest ih =>
    rw [List.map_cons, List.nodup_cons] at hdistinct
    rw [List.foldl_cons]
    rcases List.mem_cons.mp hagent with rfl | hagent
    · rw [find?_assign_of_not_mem hdistinct.1, find?_assignStep, hnone]
      by_cases hempty : selection corpus agent = [] <;> simp [hempty]
    · refine ih hdistinct.2 hagent ?_
      rw [find?_assignStep, if_neg fun hid => hdistinct.1 (List.mem_map.mpr ⟨agent, hagent, hid.1.symm⟩),
        hnone]

variable {manifest : Manifest}

theorem find?_resolve (h : manifest.IsKeyed) (hagent : agent ∈ manifest.agents) :
    (resolve manifest corpus).assignments.find? agent.id =
      if selection corpus agent = [] then none else some (selection corpus agent) :=
  find?_assign h.nodup_ids hagent rfl

theorem cardsFor_resolve (h : manifest.IsKeyed) (hagent : agent ∈ manifest.agents) :
    (resolve manifest corpus).cardsFor agent.id = selection corpus agent := by
  rw [cardsFor, find?_resolve h hagent]
  split
  · rename_i hempty
    exact hempty.symm
  · rfl

end Rulebook.Resolution
