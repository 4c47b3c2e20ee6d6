import Mathlib.Data.List.Perm.Subperm
import Mathlib.Tactic.Tauto
import Rulebook.Keyed
import Rulebook.Proofs.Basic

/-!
# Laws of keyed lists

A keyed list whose keys rise holds every key once, so a look-up finds exactly the members, erasing
a key hides it, and inserting the members one after the other gives the list again.
-/

namespace Rulebook.Keyed

set_option autoImplicit false

variable {α β : Type} {table : Keyed α}

instance (table : Keyed α) : Decidable table.Rising :=
  inferInstanceAs (Decidable (table.Pairwise fun a b => a.1 < b.1))

theorem mem_insert {key : String} {value : α} {entry : String × α} :
    entry ∈ insert key value table → entry = (key, value) ∨ entry ∈ table := by
  induction table with
  | nil => simp [insert]
  | cons head rest ih =>
    obtain ⟨k, v⟩ := head
    intro h
    by_cases hlt : key < k
    · simpa [insert, hlt] using h
    · by_cases heq : key = k
      · subst heq
        simp only [insert, hlt, if_false, if_true, List.mem_cons] at h
        exact h.imp id (List.mem_cons_of_mem _)
      · simp only [insert, hlt, heq, if_false, List.mem_cons] at h
        rcases h with h | h
        · exact .inr (by simp [h])
        · exact (ih h).imp id (List.mem_cons_of_mem _)

/-- A key that is not there yet adds one entry. -/
theorem perm_insert {key : String} (value : α) (h : table.find? key = none) :
    (insert key value table).Perm ((key, value) :: table) := by
  induction table with
  | nil => exact .refl _
  | cons head rest ih =>
    obtain ⟨k, v⟩ := head
    rw [find?] at h
    split at h
    · cases h
    · rename_i hne
      rw [insert, if_neg (Ne.symm hne)]
      split
      · exact .refl _
      · exact ((ih h).cons _).trans (.swap _ _ _)

theorem mem_of_mem_erase {key : String} {entry : String × α} :
    entry ∈ erase key table → entry ∈ table := by
  induction table with
  | nil => simp [erase]
  | cons head rest ih =>
    obtain ⟨k, v⟩ := head
    intro h
    by_cases heq : k = key
    · exact List.mem_cons_of_mem _ (by simpa [erase, heq] using h)
    · simp only [erase, heq, if_false, List.mem_cons] at h
      rcases h with h | h
      · simp [h]
      · exact List.mem_cons_of_mem _ (ih h)

theorem mem_of_find? {key : String} {value : α} (h : table.find? key = some value) :
    (key, value) ∈ table := by
  induction table with
  | nil => cases h
  | cons head rest ih =>
    obtain ⟨k, v⟩ := head
    rw [find?] at h
    split at h
    · cases h
      simp_all
    · exact List.mem_cons_of_mem _ (ih h)

theorem find?_eq_none_iff {key : String} : table.find? key = none ↔ key ∉ table.keys := by
  induction table with
  | nil => simp [find?, keys]
  | cons head rest ih =>
    obtain ⟨k, v⟩ := head
    simp only [keys] at ih
    by_cases h : k = key
    · simp [find?, keys, h]
    · simp [find?, keys, h, ih, Ne.symm h]

theorem find?_isSome_iff {key : String} : (table.find? key).isSome ↔ key ∈ table.keys := by
  rw [← Option.ne_none_iff_isSome, ne_eq, find?_eq_none_iff, Decidable.not_not]

theorem Rising.tail {entry : String × α} (h : Rising (entry :: table)) : Rising table :=
  (List.pairwise_cons.mp h).2

theorem Rising.not_mem_tail {key : String} {value : α} (h : Rising ((key, value) :: table)) :
    key ∉ table.keys := by
  intro hmem
  obtain ⟨entry, hentry, hkey⟩ := List.mem_map.mp hmem
  have hlt : key < entry.1 := (List.pairwise_cons.mp h).1 entry hentry
  rw [hkey] at hlt
  exact String.lt_irrefl key hlt

theorem find?_eq_some_iff_of_nodup (h : (keys table).Nodup) {key : String} {value : α} :
    table.find? key = some value ↔ (key, value) ∈ table := by
  refine ⟨mem_of_find?, fun hmem => ?_⟩
  induction table with
  | nil => cases hmem
  | cons head rest ih =>
    obtain ⟨k, v⟩ := head
    obtain ⟨hhead, hrest⟩ := List.nodup_cons.mp h
    rcases List.mem_cons.mp hmem with heq | hmem
    · cases heq
      simp [find?]
    · have hne : k ≠ key := by
        rintro rfl
        exact hhead (List.mem_map.mpr ⟨_, hmem, rfl⟩)
      rw [find?, if_neg hne]
      exact ih hrest hmem

theorem Rising.nodup_keys (h : Rising table) : table.keys.Nodup :=
  nodup_of_rising (List.pairwise_map.mpr h)

theorem find?_eq_some_iff (h : Rising table) {key : String} {value : α} :
    table.find? key = some value ↔ (key, value) ∈ table :=
  find?_eq_some_iff_of_nodup h.nodup_keys

theorem rising_erase (key : String) (h : Rising table) : (erase key table).Rising := by
  induction table with
  | nil => exact h
  | cons head rest ih =>
    obtain ⟨k, v⟩ := head
    by_cases heq : k = key
    · simpa [erase, heq] using h.tail
    · simp only [erase, heq, if_false]
      refine List.pairwise_cons.mpr ⟨?_, ih h.tail⟩
      intro entry hentry
      exact (List.pairwise_cons.mp h).1 entry (mem_of_mem_erase hentry)

theorem find?_erase (h : Rising table) (key other : String) :
    (erase key table).find? other = if key = other then none else table.find? other := by
  induction table with
  | nil => simp [erase, find?]
  | cons head rest ih =>
    obtain ⟨k, v⟩ := head
    by_cases heq : k = key
    · subst heq
      simp only [erase, if_true, find?]
      split
      · rename_i hother
        rw [← hother]
        exact find?_eq_none_iff.mpr h.not_mem_tail
      · rfl
    · simp only [erase, heq, if_false, find?, ih h.tail]
      by_cases hother : k = other
      · subst hother
        simp [Ne.symm heq]
      · simp [hother]

/-- Rising tables with the same entries are the same. -/
theorem eq_of_rising {other : Keyed α} (h : Rising table) (hother : Rising other)
    (hmem : ∀ entry, entry ∈ table ↔ entry ∈ other) : table = other :=
  eq_of_mem_iff (fun _ _ => string_lt_asymm _ _) h hother hmem

theorem rising_mapValues (f : α → β) (h : Rising table) : (table.mapValues f).Rising := by
  rw [Rising, mapValues, List.pairwise_map]
  exact h

/-- Keys that all lie behind those so far are appended. -/
theorem insert_of_last {key : String} {value : α} (h : ∀ entry ∈ table, entry.1 < key) :
    insert key value table = table ++ [(key, value)] := by
  induction table with
  | nil => rfl
  | cons head rest ih =>
    obtain ⟨k, v⟩ := head
    have hlt : k < key := h (k, v) List.mem_cons_self
    have hne : key ≠ k := by
      rintro rfl
      exact String.lt_irrefl _ hlt
    rw [insert, if_neg (Std.not_lt.mpr (Std.le_of_lt hlt)), if_neg hne,
      ih fun entry hentry => h entry (List.mem_cons_of_mem _ hentry), List.cons_append]

theorem foldl_insert_append {more : Keyed α} (h : Rising (table ++ more)) :
    more.foldl (fun table entry => insert entry.1 entry.2 table) table = table ++ more := by
  induction more generalizing table with
  | nil => simp
  | cons entry more ih =>
    have hlast : ∀ other ∈ table, other.1 < entry.1 := by
      intro other hother
      exact (List.pairwise_append.mp h).2.2 other hother entry List.mem_cons_self
    rw [List.foldl_cons, insert_of_last hlast, ih (by simpa using h)]
    simp

theorem ofList_of_rising (h : Rising table) : ofList table = table := by
  have happend : table.foldl (fun t entry => insert entry.1 entry.2 t) [] = [] ++ table :=
    foldl_insert_append h
  rw [List.nil_append] at happend
  exact happend

theorem mem_foldl_insert {pairs : List (String × α)} {entry : String × α}
    (h : entry ∈ pairs.foldl (fun table (k, v) => insert k v table) table) :
    entry ∈ table ∨ entry ∈ pairs := by
  induction pairs generalizing table with
  | nil => exact .inl h
  | cons pair rest ih =>
    rcases ih h with h | h
    · rcases mem_insert h with rfl | h
      · exact .inr List.mem_cons_self
      · exact .inl h
    · exact .inr (List.mem_cons_of_mem _ h)

theorem mem_of_mem_ofList {pairs : List (String × α)} {entry : String × α}
    (h : entry ∈ ofList pairs) : entry ∈ pairs := by
  rcases mem_foldl_insert h with h | h
  · cases h
  · exact h

theorem mem_keys_foldl_insert (pairs : List (String × α)) (key : String) :
    key ∈ (pairs.foldl (fun table (k, v) => insert k v table) table).keys ↔
      key ∈ table.keys ∨ key ∈ pairs.map (·.1) := by
  induction pairs generalizing table with
  | nil => simp
  | cons pair rest ih =>
    rw [List.foldl_cons, ih, mem_keys_insert, List.map_cons, List.mem_cons]
    tauto

theorem mem_keys_ofList (pairs : List (String × α)) (key : String) :
    key ∈ (ofList pairs).keys ↔ key ∈ pairs.map (·.1) := by
  rw [ofList, mem_keys_foldl_insert]
  simp [keys]

theorem ofList_concat (pairs : List (String × α)) (key : String) (value : α) :
    ofList (pairs ++ [(key, value)]) = insert key value (ofList pairs) := by
  rw [ofList, List.foldl_concat]
  rfl

/-- The table is as long as the list exactly if no pair has replaced another. -/
theorem length_ofList_eq_iff (pairs : List (String × α)) :
    (ofList pairs).length = pairs.length ↔ (keys pairs).Nodup := by
  have hnodup := (rising_ofList pairs).nodup_keys
  have hsubset : (ofList pairs).keys ⊆ keys pairs :=
    fun key hkey => (mem_keys_ofList pairs key).mp hkey
  have hlength : (keys pairs).length = pairs.length := List.length_map _
  have hlengthTable : (ofList pairs).keys.length = (ofList pairs).length := List.length_map _
  rw [← hlength, ← hlengthTable]
  constructor
  · intro heq
    have hperm := (List.subperm_of_subset hnodup hsubset).perm_of_length_le (Nat.le_of_eq heq.symm)
    exact hperm.nodup_iff.mp hnodup
  · intro hdistinct
    have hperm : (ofList pairs).keys.Perm (keys pairs) :=
      (List.perm_ext_iff_of_nodup hnodup hdistinct).mpr (mem_keys_ofList pairs)
    exact hperm.length_eq

/-! ## Lists with distinct keys -/

theorem find?_foldl_insert {pairs : List (String × α)} (h : (keys pairs).Nodup)
    (key : String) :
    (pairs.foldl (fun table (k, v) => insert k v table) table).find? key =
      (find? key pairs).or (table.find? key) := by
  induction pairs generalizing table with
  | nil => rfl
  | cons pair rest ih =>
    obtain ⟨k, v⟩ := pair
    rw [keys, List.map_cons, List.nodup_cons] at h
    rw [List.foldl_cons, ih h.2, find?_insert, find?]
    by_cases hk : k = key
    · subst hk
      rw [find?_eq_none_iff.mpr h.1]
      simp
    · rw [if_neg hk, if_neg hk]

theorem find?_ofList {pairs : List (String × α)} (h : (keys pairs).Nodup) (key : String) :
    (ofList pairs).find? key = find? key pairs := by
  rw [ofList, find?_foldl_insert h, find?_nil, Option.or_none]

theorem mem_ofList_iff {pairs : List (String × α)} (h : (keys pairs).Nodup) {entry : String × α} :
    entry ∈ ofList pairs ↔ entry ∈ pairs := by
  rw [← find?_eq_some_iff (rising_ofList pairs), find?_ofList h, find?_eq_some_iff_of_nodup h]

theorem find?_map {f : String → String} (hf : Function.Injective f) (g : α → β)
    (pairs : List (String × α)) (key : String) :
    find? (f key) (pairs.map fun (k, v) => (f k, g v)) = (find? key pairs).map g := by
  induction pairs with
  | nil => rfl
  | cons pair rest ih =>
    obtain ⟨k, v⟩ := pair
    by_cases hk : k = key
    · simp [find?, hk]
    · have hne : f k ≠ f key := fun heq => hk (hf heq)
      simpa [find?, hk, hne] using ih

/-- Looking up all keys in their order gives the list again. -/
theorem filterMap_find? {order : List String} (horder : order.Nodup) {pairs : List (String × α)}
    (h : (keys pairs).Sublist order) :
    (order.filterMap fun key => (find? key pairs).map fun value => (key, value)) = pairs := by
  induction order generalizing pairs with
  | nil =>
    rw [List.sublist_nil, keys, List.map_eq_nil_iff] at h
    rw [h, List.filterMap_nil]
  | cons first order ih =>
    obtain ⟨hfirst, hrest⟩ := List.nodup_cons.mp horder
    cases pairs with
    | nil => simp
    | cons pair others =>
      obtain ⟨k, v⟩ := pair
      rcases List.cons_sublist_cons'.mp h with h | ⟨heq, h⟩
      · have hnone : find? first ((k, v) :: others) = none :=
          find?_eq_none_iff.mpr fun hmem => hfirst (h.subset hmem)
        rw [List.filterMap_cons_none (by rw [hnone]; rfl)]
        exact ih hrest h
      · have heq : k = first := heq
        have hfound : find? first ((k, v) :: others) = some v := by simp [find?, heq]
        have hlater : ∀ key ∈ order, find? key ((k, v) :: others) = find? key others := by
          intro key hkey
          have hne : k ≠ key := by
            rintro rfl
            exact hfirst (heq ▸ hkey)
          rw [find?, if_neg hne]
        rw [List.filterMap_cons_some (by rw [hfound]; rfl), ← heq]
        refine congrArg _ ((List.filterMap_congr fun key hkey => ?_).trans (ih hrest h))
        rw [hlater key hkey]

/-- Lists whose keys come in one order are known by what is found in them. -/
theorem eq_of_find? {order : List String} (horder : order.Nodup) {xs ys : List (String × α)}
    (hxs : (keys xs).Sublist order) (hys : (keys ys).Sublist order)
    (h : ∀ key, find? key xs = find? key ys) : xs = ys := by
  rw [← filterMap_find? horder hxs, ← filterMap_find? horder hys]
  simp only [h]

/-! ## Tables made of entries -/

section

variable {ε : Type} (named : ε → String → Prop) (valued : ε → α → Prop) {entries : List ε}

theorem nodup_keys_iff (hnamed : ∀ entry s t, named entry s → named entry t → s = t)
    {pairs : List (String × α)}
    (h : List.Forall₂ (fun entry pair => named entry pair.1 ∧ valued entry pair.2) entries pairs) :
    (keys pairs).Nodup ↔ entries.Pairwise fun a b => ∀ s t, named a s → named b t → s ≠ t := by
  refine pairwise_iff_of_forall₂ hnamed (List.forall₂_map_right_iff.mpr ?_)
  exact h.imp fun _ _ h => h.1

/-- A table is made of entries exactly if their names differ, its keys rise, and it has the value of
every entry under the name of the entry and nothing else. -/
theorem exists_ofList_eq_iff (hnamed : ∀ entry s t, named entry s → named entry t → s = t)
    (hvalued : ∀ entry a b, valued entry a → valued entry b → a = b)
    (hall : ∀ entry ∈ entries, (∃ name, named entry name) ∧ ∃ a, valued entry a)
    (table : Keyed α) :
    (∃ pairs, List.Forall₂ (fun entry pair => named entry pair.1 ∧ valued entry pair.2) entries pairs ∧
        (keys pairs).Nodup ∧ ofList pairs = table) ↔
      (entries.Pairwise fun a b => ∀ s t, named a s → named b t → s ≠ t) ∧ Rising table ∧
        ∀ name a, (name, a) ∈ table ↔ ∃ entry ∈ entries, named entry name ∧ valued entry a := by
  obtain ⟨pairs, hpairs⟩ : ∃ pairs, List.Forall₂
      (fun entry (pair : String × α) => named entry pair.1 ∧ valued entry pair.2) entries pairs := by
    refine exists_forall₂ fun entry hentry => ?_
    obtain ⟨⟨name, hname⟩, a, ha⟩ := hall entry hentry
    exact ⟨(name, a), hname, ha⟩
  have hsame {others : List (String × α)} (hothers : List.Forall₂
      (fun entry (pair : String × α) => named entry pair.1 ∧ valued entry pair.2) entries others) :
      others = pairs := by
    refine List.right_unique_forall₂' (fun entry p q hp hq => ?_) hothers hpairs
    exact Prod.ext (hnamed entry _ _ hp.1 hq.1) (hvalued entry _ _ hp.2 hq.2)
  have hnodup := nodup_keys_iff named valued hnamed hpairs
  have hmem (name : String) (a : α) :
      (name, a) ∈ pairs ↔ ∃ entry ∈ entries, named entry name ∧ valued entry a := by
    constructor
    · exact exists_of_mem_right hpairs
    · rintro ⟨entry, hentry, hname, ha⟩
      obtain ⟨pair, hpair, hname', ha'⟩ := exists_of_mem_left hpairs hentry
      rwa [hnamed entry name pair.1 hname hname', hvalued entry a pair.2 ha ha']
  constructor
  · rintro ⟨others, hothers, hdistinct, rfl⟩
    rw [hsame hothers] at hdistinct ⊢
    refine ⟨hnodup.mp hdistinct, rising_ofList pairs, fun name a => ?_⟩
    rw [mem_ofList_iff hdistinct, hmem]
  · rintro ⟨hapart, hrising, htable⟩
    refine ⟨pairs, hpairs, hnodup.mpr hapart, ?_⟩
    refine eq_of_rising (rising_ofList pairs) hrising fun ⟨name, a⟩ => ?_
    rw [mem_ofList_iff (hnodup.mpr hapart), hmem, htable]

end

end Rulebook.Keyed
