import Mathlib.Data.List.Induction
import Mathlib.Data.List.Nodup
import Mathlib.Data.Set.Insert
import Rulebook.Proofs.Package.Verify

/-!
# Validation hooks

One pass over the cards fills the lists of all tools at once, and one set of pairs tells what has been seen
for which tool. In the end a tool has all that the cards name for it, in their order, each id where it
comes first. What other tools have plays no part.
-/

namespace Rulebook

set_option autoImplicit false

/-! ## First occurrences -/

section

variable {α : Type} [DecidableEq α] {x y z : α} {xs : List α}

theorem eraseDups_concat (xs : List α) (x : α) :
    (xs ++ [x]).eraseDups = if x ∈ xs then xs.eraseDups else xs.eraseDups ++ [x] := by
  rw [List.eraseDups_append, List.cons_removeAll]
  by_cases hx : x ∈ xs <;> simp [hx, List.removeAll, List.eraseDups_cons]

theorem nodup_eraseDups (xs : List α) : xs.eraseDups.Nodup := by
  induction xs using List.reverseRecOn with
  | nil => exact .nil
  | append_singleton xs x ih =>
    rw [eraseDups_concat]
    split
    · exact ih
    · rename_i hx
      rw [← List.concat_eq_append]
      exact ih.concat fun hmem => hx (List.mem_eraseDups.mp hmem)

theorem idxOf_concat_lt_iff (hz : z ∉ xs) (hx : x ∈ xs ++ [z]) (hy : y ∈ xs ++ [z]) :
    (xs ++ [z]).idxOf x < (xs ++ [z]).idxOf y ↔ x ∈ xs ∧ (y ∈ xs → xs.idxOf x < xs.idxOf y) := by
  have hlast : (xs ++ [z]).idxOf z = xs.length := by simp [List.idxOf_append_of_notMem hz]
  rcases List.mem_append.mp hx with hxs | hxz
  · have hlt := List.idxOf_lt_length_of_mem hxs
    rw [List.idxOf_append_of_mem hxs]
    rcases List.mem_append.mp hy with hys | hyz
    · simp [List.idxOf_append_of_mem hys, hxs, hys]
    · rw [List.mem_singleton.mp hyz, hlast]
      simp [hlt, hxs, hz]
  · rw [List.mem_singleton.mp hxz, hlast]
    rcases List.mem_append.mp hy with hys | hyz
    · have hlt := List.idxOf_lt_length_of_mem hys
      simp [List.idxOf_append_of_mem hys, hz, Nat.le_of_lt hlt]
    · rw [List.mem_singleton.mp hyz, hlast]
      simp [hz]

/-- Items come in the order of their first occurrences. -/
theorem idxOf_eraseDups_lt_iff (hx : x ∈ xs) (hy : y ∈ xs) :
    xs.eraseDups.idxOf x < xs.eraseDups.idxOf y ↔ xs.idxOf x < xs.idxOf y := by
  induction xs using List.reverseRecOn with
  | nil => cases hx
  | append_singleton xs z ih =>
    rw [eraseDups_concat]
    by_cases hz : z ∈ xs
    · have hmem {w : α} (hw : w ∈ xs ++ [z]) : w ∈ xs := by
        rcases List.mem_append.mp hw with hw | hw
        · exact hw
        · rwa [List.mem_singleton.mp hw]
      rw [if_pos hz, List.idxOf_append_of_mem (hmem hx), List.idxOf_append_of_mem (hmem hy)]
      exact ih (hmem hx) (hmem hy)
    · rw [if_neg hz, idxOf_concat_lt_iff hz hx hy,
        idxOf_concat_lt_iff (by simpa using hz) (by simpa using hx) (by simpa using hy)]
      simp only [List.mem_eraseDups]
      exact and_congr_right fun hx => forall_congr' fun hy => ih hx hy

end

namespace Package

/-- All that the cards name for a tool, one after the other. -/
def namedFor (cards : List Card) (tool : String) : List String :=
  cards.flatMap fun card => (card.detect.find? tool).getD []

namespace Hooks

variable {hooks : Hooks} {tools : Set String} {named : String → List String} {card : Card}

/-- Where the pass stands once it has come upon these tools and all that was named for them. -/
structure Stands (hooks : Hooks) (tools : Set String) (named : String → List String) : Prop where
  listed : ∀ tool, tool ∈ hooks.lists.keys ↔ tool ∈ tools
  ids : ∀ tool, hooks.idsOf tool = (named tool).eraseDups
  seen : ∀ tool id, (tool, id) ∈ hooks.seen ↔ id ∈ named tool

theorem stands_empty : Stands empty ∅ fun _ => [] where
  listed _ := by simp [empty, Keyed.keys]
  ids _ := rfl
  seen _ _ := by simp [empty]

theorem idsOf_insert (lists : Keyed (List String)) (seen : List (String × String)) (tool other : String)
    (ids : List String) :
    idsOf ⟨lists.insert tool ids, seen⟩ other = if tool = other then ids else idsOf ⟨lists, seen⟩ other := by
  rw [idsOf, Keyed.find?_insert]
  split <;> rfl

theorem Stands.register (h : Stands hooks tools named) (tool : String) :
    Stands (hooks.register tool) (insert tool tools) named where
  listed other := by
    rw [Hooks.register, Keyed.mem_keys_insert, h.listed, Set.mem_insert_iff]
  ids other := by
    rw [Hooks.register, idsOf_insert]
    split
    · rename_i heq
      rw [← heq, h.ids]
    · exact h.ids other
  seen := h.seen

/-- One more id is named for a tool; the set of pairs decides for this tool alone. -/
theorem Stands.add (h : Stands hooks tools named) {tool : String} (htool : tool ∈ tools) (id : String) :
    Stands (hooks.add tool id) tools (Function.update named tool (named tool ++ [id])) := by
  rw [Hooks.add]
  split
  · rename_i hseen
    rw [h.seen] at hseen
    refine ⟨h.listed, fun other => ?_, fun other id' => ?_⟩
    · rw [Function.update_apply]
      split
      · rename_i heq
        rw [eraseDups_concat, if_pos hseen, heq, h.ids]
      · exact h.ids other
    · rw [Function.update_apply, h.seen]
      split
      · rename_i heq
        rw [heq, List.mem_append, List.mem_singleton]
        exact ⟨.inl, fun hmem => hmem.elim (fun hmem => hmem) fun heq => heq ▸ hseen⟩
      · exact Iff.rfl
  · rename_i hseen
    rw [h.seen] at hseen
    refine ⟨fun other => ?_, fun other => ?_, fun other id' => ?_⟩
    · rw [Keyed.mem_keys_insert, h.listed]
      exact ⟨fun hmem => hmem.elim (fun heq => heq ▸ htool) fun hmem => hmem, .inr⟩
    · rw [idsOf_insert, Function.update_apply]
      by_cases heq : tool = other
      · rw [if_pos heq, if_pos heq.symm, eraseDups_concat, if_neg hseen, h.ids]
      · rw [if_neg heq, if_neg (Ne.symm heq)]
        exact h.ids other
    · rw [List.mem_cons, Prod.mk.injEq, h.seen, Function.update_apply]
      split
      · rename_i heq
        rw [heq, List.mem_append, List.mem_singleton]
        tauto
      · rename_i hne
        simp [hne]

theorem Stands.addAll (h : Stands hooks tools named) {tool : String} (htool : tool ∈ tools)
    (ids : List String) :
    Stands (ids.foldl (Hooks.add tool) hooks) tools (Function.update named tool (named tool ++ ids)) := by
  induction ids generalizing hooks named with
  | nil => simpa using h
  | cons id rest ih =>
    have hrest := ih (h.add htool id)
    rw [Function.update_self, Function.update_idem, List.append_assoc, List.singleton_append] at hrest
    exact hrest

theorem Stands.addTool (h : Stands hooks tools named) (entry : String × List String) :
    Stands (hooks.addTool entry) (insert entry.1 tools)
      (Function.update named entry.1 (named entry.1 ++ entry.2)) :=
  (h.register entry.1).addAll (Set.mem_insert _ _) entry.2

/-- A card adds what it names for each tool. -/
theorem Stands.addCard (h : Stands hooks tools named) (hrising : card.detect.Rising) :
    Stands (hooks.addCard card) (tools ∪ {tool | tool ∈ card.detect.keys})
      fun tool => named tool ++ (card.detect.find? tool).getD [] := by
  rw [Hooks.addCard]
  generalize card.detect = table at hrising
  induction table generalizing hooks tools named with
  | nil => simpa [Keyed.keys] using h
  | cons entry rest ih =>
    obtain ⟨tool, ids⟩ := entry
    have hnew : Keyed.find? tool rest = none := Keyed.find?_eq_none_iff.mpr hrising.not_mem_tail
    have hrest := ih (h.addTool (tool, ids)) hrising.tail
    have htools : insert tool tools ∪ {other | other ∈ Keyed.keys rest} =
        tools ∪ {other | other ∈ Keyed.keys ((tool, ids) :: rest)} := by
      ext other
      simp only [Set.mem_union, Set.mem_insert_iff, Set.mem_ofPred_eq, Keyed.keys, List.map_cons,
        List.mem_cons]
      tauto
    have hnamed : (fun other => Function.update named tool (named tool ++ ids) other ++
          (Keyed.find? other rest).getD []) =
        fun other => named other ++ (Keyed.find? other ((tool, ids) :: rest)).getD [] := by
      funext other
      rw [Function.update_apply, Keyed.find?]
      by_cases heq : tool = other
      · rw [if_pos heq, if_pos heq.symm, ← heq, hnew]
        simp
      · rw [if_neg heq, if_neg (Ne.symm heq)]
    rwa [htools, hnamed] at hrest

theorem Stands.addCards {cards : List Card} (h : Stands hooks tools named)
    (hrising : ∀ card ∈ cards, card.detect.Rising) :
    Stands (cards.foldl Hooks.addCard hooks) (tools ∪ {tool | ∃ card ∈ cards, tool ∈ card.detect.keys})
      fun tool => named tool ++ namedFor cards tool := by
  induction cards generalizing hooks tools named with
  | nil => simpa [namedFor] using h
  | cons card rest ih =>
    obtain ⟨hcard, hrest⟩ := List.forall_mem_cons.mp hrising
    have hall := ih (h.addCard hcard) hrest
    simp only [namedFor, List.flatMap_cons, List.append_assoc] at hall ⊢
    have htools : tools ∪ {tool | tool ∈ card.detect.keys} ∪
          {tool | ∃ card ∈ rest, tool ∈ card.detect.keys} =
        tools ∪ {tool | ∃ other ∈ card :: rest, tool ∈ other.detect.keys} := by
      ext tool
      simp only [Set.mem_union, Set.mem_ofPred_eq, List.exists_mem_cons_iff, or_assoc]
    rwa [htools] at hall

end Hooks

variable {cards : List Card}

theorem stands_mergeHooks (hrising : ∀ card ∈ cards, card.detect.Rising) :
    (cards.foldl Hooks.addCard .empty).Stands {tool | ∃ card ∈ cards, tool ∈ card.detect.keys}
      (namedFor cards) := by
  have hstands := Hooks.stands_empty.addCards hrising
  rwa [Set.empty_union] at hstands

theorem mem_namedFor_iff {tool id : String} :
    id ∈ namedFor cards tool ↔
      ∃ card ∈ cards, ∃ ids, card.detect.find? tool = some ids ∧ id ∈ ids := by
  rw [namedFor, List.mem_flatMap]
  refine exists_congr fun card => and_congr_right fun _ => ?_
  cases card.detect.find? tool <;> simp

/-- The merged hooks list exactly the tools that some card has. A tool has what the cards name for it, one
after the other, without what has come before: each id once, none lost, none from another tool, in the
order in which they come first. -/
theorem mergeHooks_first_seen (hrising : ∀ card ∈ cards, card.detect.Rising) :
    (mergeHooks cards).Rising ∧
      (∀ tool, tool ∈ (mergeHooks cards).keys ↔ ∃ card ∈ cards, tool ∈ card.detect.keys) ∧
      ∀ tool ids, (mergeHooks cards).find? tool = some ids →
        ids = (namedFor cards tool).eraseDups ∧ ids.Nodup ∧
        (∀ id, id ∈ ids ↔ ∃ card ∈ cards, ∃ own, card.detect.find? tool = some own ∧ id ∈ own) ∧
        ∀ x ∈ ids, ∀ y ∈ ids, ids.idxOf x < ids.idxOf y ↔
          (namedFor cards tool).idxOf x < (namedFor cards tool).idxOf y := by
  have hstands := stands_mergeHooks hrising
  refine ⟨rising_mergeHooks cards, hstands.listed, fun tool ids hfind => ?_⟩
  have hids : ids = (namedFor cards tool).eraseDups := by
    rw [← hstands.ids tool, Hooks.idsOf]
    exact (congrArg (Option.getD · []) hfind).symm
  refine ⟨hids, hids ▸ nodup_eraseDups _, fun id => ?_, fun x hx y hy => ?_⟩
  · rw [hids, List.mem_eraseDups, mem_namedFor_iff]
  · rw [hids, List.mem_eraseDups] at hx hy
    rw [hids, idxOf_eraseDups_lt_iff hx hy]

/-- A card that can be found by these tools. -/
def detectedBy (table : Keyed (List String)) : Card := { (default : Card) with detect := table }

/-- Two tools share an id, an id comes twice in a card and again in the next, and one tool has no ids. -/
theorem mergeHooks_first_seen_shared :
    let cards := [detectedBy [("codeql", ["x", "x"]), ("semgrep", ["b", "x"])],
      detectedBy [("eslint", []), ("semgrep", ["a", "b", "x", "c"])]]
    (∀ card ∈ cards, card.detect.Rising) ∧
      mergeHooks cards = [("codeql", ["x"]), ("eslint", []), ("semgrep", ["b", "x", "a", "c"])] ∧
      ["b", "x", "a", "c"] = (namedFor cards "semgrep").eraseDups := by
  intro cards
  have hrising : ∀ card ∈ cards, card.detect.Rising := by decide
  refine ⟨hrising, by decide, ?_⟩
  exact ((mergeHooks_first_seen hrising).2.2 "semgrep" _ (by decide)).1

end Package

end Rulebook
