/-!
# Keyed lists

Maps from text to values as lists in strictly rising key order, so that equal maps are equal lists.
`insert` keeps the order and replaces what the key had before; `find?` sees exactly what was
inserted last.
-/

namespace Rulebook

set_option autoImplicit false

/-- A map from text to values, kept in rising key order. -/
abbrev Keyed (α : Type) := List (String × α)

namespace Keyed

variable {α β : Type}

def insert (key : String) (value : α) : Keyed α → Keyed α
  | [] => [(key, value)]
  | (k, v) :: rest =>
    if key < k then (key, value) :: (k, v) :: rest
    else if key = k then (key, value) :: rest
    else (k, v) :: insert key value rest

/-- Later pairs replace earlier ones with the same key. -/
def ofList (pairs : List (String × α)) : Keyed α :=
  pairs.foldl (fun table (k, v) => insert k v table) []

def erase (key : String) : Keyed α → Keyed α
  | [] => []
  | (k, v) :: rest => if k = key then rest else (k, v) :: erase key rest

def find? (key : String) : Keyed α → Option α
  | [] => none
  | (k, v) :: rest => if k = key then some v else find? key rest

def contains (key : String) (table : Keyed α) : Bool := (table.find? key).isSome

def keys (table : Keyed α) : List String := table.map (·.1)

def values (table : Keyed α) : List α := table.map (·.2)

def mapValues (f : α → β) (table : Keyed α) : Keyed β := table.map fun (k, v) => (k, f v)

/-- The keys rise strictly. -/
def Rising (table : Keyed α) : Prop := table.Pairwise fun a b => a.1 < b.1

@[simp] theorem find?_nil (key : String) : find? key ([] : Keyed α) = none := rfl

theorem find?_insert (key other : String) (value : α) (table : Keyed α) :
    (insert key value table).find? other = if key = other then some value else table.find? other := by
  induction table with
  | nil => simp [insert, find?]
  | cons entry rest ih =>
    obtain ⟨k, v⟩ := entry
    by_cases hlt : key < k
    · simp [insert, hlt, find?]
    · by_cases heq : key = k
      · subst heq
        simp only [insert, hlt, if_false, if_true, find?]
        split <;> rfl
      · simp only [insert, hlt, heq, if_false, find?, ih]
        by_cases hk : k = other
        · subst hk
          simp [heq]
        · simp [hk]

theorem mem_keys_insert (key other : String) (value : α) (table : Keyed α) :
    other ∈ (insert key value table).keys ↔ other = key ∨ other ∈ table.keys := by
  induction table with
  | nil => simp [insert, keys]
  | cons entry rest ih =>
    obtain ⟨k, v⟩ := entry
    simp only [keys] at ih ⊢
    by_cases hlt : key < k
    · simp [insert, hlt]
    · by_cases heq : key = k
      · subst heq
        simp [insert]
      · simp only [insert, hlt, heq, if_false, List.map_cons, List.mem_cons, ih]
        grind

theorem rising_insert (key : String) (value : α) {table : Keyed α} (h : table.Rising) :
    (insert key value table).Rising := by
  induction table with
  | nil => simp [insert, Rising]
  | cons entry rest ih =>
    obtain ⟨k, v⟩ := entry
    obtain ⟨hhead, hrest⟩ := List.pairwise_cons.mp h
    by_cases hlt : key < k
    · simp only [insert, hlt, if_true]
      refine List.pairwise_cons.mpr ⟨?_, h⟩
      intro b hb
      rcases List.mem_cons.mp hb with rfl | hb
      · exact hlt
      · exact String.lt_trans hlt (hhead b hb)
    · by_cases heq : key = k
      · subst heq
        simp only [insert, hlt, if_false, if_true]
        exact List.pairwise_cons.mpr ⟨hhead, hrest⟩
      · simp only [insert, hlt, heq, if_false]
        refine List.pairwise_cons.mpr ⟨?_, ih hrest⟩
        intro b hb
        have hkey : b.1 ∈ (insert key value rest).keys := List.mem_map_of_mem hb
        rcases (mem_keys_insert key b.1 value rest).mp hkey with hk | hk
        · rw [hk]
          exact Std.lt_of_le_of_ne (Std.not_lt.mp hlt) (Ne.symm heq)
        · obtain ⟨c, hc, hcb⟩ := List.mem_map.mp hk
          rw [← hcb]
          exact hhead c hc

theorem rising_ofList (pairs : List (String × α)) : (ofList pairs).Rising := by
  have general : ∀ (table : Keyed α), table.Rising →
      (pairs.foldl (fun table (k, v) => insert k v table) table).Rising := by
    induction pairs with
    | nil => exact fun _ h => h
    | cons p rest ih => exact fun table h => ih _ (rising_insert p.1 p.2 h)
  exact general [] List.Pairwise.nil

end Keyed

end Rulebook
