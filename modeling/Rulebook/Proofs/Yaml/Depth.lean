import Rulebook.Proofs.Yaml.Reader

/-!
# How deep values go

A value that was read holds no more collections inside one another than the reader opens. Tags are no
collections, and what lies in a key does not count.
-/

namespace Rulebook

set_option autoImplicit false

namespace Yaml

namespace Node

mutual

/-- How many collections lie inside one another. -/
def depth : Node → Nat
  | .sequence items => depthItems items + 1
  | .mapping entries => depthEntries entries + 1
  | .tagged _ content => depth content
  | _ => 0

def depthItems : List Node → Nat
  | [] => 0
  | n :: rest => max (depth n) (depthItems rest)

def depthEntries : List (Node × Node) → Nat
  | [] => 0
  | (_, v) :: rest => max (depth v) (depthEntries rest)

end

theorem depthItems_le_iff {items : List Node} {n : Nat} :
    depthItems items ≤ n ↔ ∀ v ∈ items, v.depth ≤ n := by
  induction items with
  | nil => simp [depthItems]
  | cons v rest ih => rw [depthItems, Nat.max_le, ih, List.forall_mem_cons]

theorem depthEntries_le_iff {entries : List (Node × Node)} {n : Nat} :
    depthEntries entries ≤ n ↔ ∀ entry ∈ entries, entry.2.depth ≤ n := by
  induction entries with
  | nil => simp [depthEntries]
  | cons entry rest ih => rw [depthEntries, Nat.max_le, ih, List.forall_mem_cons]

theorem depth_bare (n : Node) : n.bare.depth = n.depth := by
  induction n using bare.induct with
  | case1 tag content ih => rw [bare, ih, depth]
  | case2 n hn => rw [bare.eq_2 n hn]

theorem depth_of_entries? {n : Node} {entries : List (Node × Node)} (h : n.entries? = some entries) :
    n.depth = depthEntries entries + 1 := by
  rw [entries?] at h
  split at h
  · rename_i hbare
    cases h
    rw [← depth_bare, hbare, depth]
  · cases h

theorem depth_valueOf? {key : String} {entries : List (Node × Node)} {v : Node}
    (h : valueOf? key entries = some v) : v.depth ≤ depthEntries entries := by
  induction entries using valueOf?.induct key with
  | case1 => cases h
  | case2 v' rest =>
    rw [valueOf?, if_pos rfl] at h
    cases h
    exact Nat.le_max_left _ _
  | case3 k v' rest hne ih =>
    rw [valueOf?, if_neg hne] at h
    exact Nat.le_trans (ih h) (Nat.le_max_right _ _)
  | case4 entry rest hentry ih =>
    rw [valueOf?.eq_3 _ _ _ hentry] at h
    exact Nat.le_trans (ih h) (Nat.le_max_right _ _)

theorem depth_of_isLeaf {n : Node} (h : n.isLeaf = true) : n.depth = 0 := by
  cases n <;> first | rfl | cases h

end Node

theorem isRead_depth : IsRead fun room n => n.depth ≤ room where
  leaf h := by simp [Node.depth_of_isLeaf h]
  tagged h := by rwa [Node.depth]
  sequence h := Nat.succ_le_succ (Node.depthItems_le_iff.mpr h)
  mapping _ h := Nat.succ_le_succ (Node.depthEntries_le_iff.mpr fun entry hentry => (h entry hentry).2)

theorem Node.depth_parse {text : String} {n : Node} (h : Node.parse text = .ok n) :
    n.depth ≤ mostCollections :=
  parse_holds isRead_depth h

end Yaml

end Rulebook
