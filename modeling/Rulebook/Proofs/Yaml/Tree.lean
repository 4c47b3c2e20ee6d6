import Rulebook.Proofs.Yaml.Reader

/-!
# YAML values as trees

Values can be compared as they are. No mapping that was read holds two keys that are the same, so a key that
is a text is found exactly where the mapping has it. In a value that carries no tag anywhere, the views that
look through tags show the value itself.
-/

namespace Rulebook.Yaml.Node

set_option autoImplicit false

mutual

/-- The value and all its parts pass a test. -/
def every (p : Node → Bool) : Node → Bool
  | .sequence items => p (.sequence items) && everyItem p items
  | .mapping entries => p (.mapping entries) && everyEntry p entries
  | .tagged tag content => p (.tagged tag content) && every p content
  | n => p n

def everyItem (p : Node → Bool) : List Node → Bool
  | [] => true
  | n :: rest => every p n && everyItem p rest

def everyEntry (p : Node → Bool) : List (Node × Node) → Bool
  | [] => true
  | (k, v) :: rest => every p k && every p v && everyEntry p rest

end

theorem everyItem_iff {p : Node → Bool} {items : List Node} :
    everyItem p items = true ↔ ∀ n ∈ items, n.every p = true := by
  induction items with
  | nil => simp [everyItem]
  | cons n rest ih => simp [everyItem, ih]

theorem everyEntry_iff {p : Node → Bool} {entries : List (Node × Node)} :
    everyEntry p entries = true ↔
      ∀ entry ∈ entries, entry.1.every p = true ∧ entry.2.every p = true := by
  induction entries with
  | nil => simp [everyEntry]
  | cons entry rest ih =>
    obtain ⟨k, v⟩ := entry
    simp [everyEntry, ih, and_assoc]

mutual

theorem every_and (p q : Node → Bool) (n : Node) :
    n.every (fun part => p part && q part) = (n.every p && n.every q) := by
  cases n with
  | sequence items => simp only [every, everyItem_and p q items, Bool.and_assoc, Bool.and_left_comm]
  | mapping entries => simp only [every, everyEntry_and p q entries, Bool.and_assoc, Bool.and_left_comm]
  | tagged tag content => simp only [every, every_and p q content, Bool.and_assoc, Bool.and_left_comm]
  | _ => rfl

theorem everyItem_and (p q : Node → Bool) (items : List Node) :
    everyItem (fun part => p part && q part) items = (everyItem p items && everyItem q items) := by
  cases items with
  | nil => rfl
  | cons n rest =>
    simp only [everyItem, every_and p q n, everyItem_and p q rest, Bool.and_assoc, Bool.and_left_comm]

theorem everyEntry_and (p q : Node → Bool) (entries : List (Node × Node)) :
    everyEntry (fun part => p part && q part) entries =
      (everyEntry p entries && everyEntry q entries) := by
  cases entries with
  | nil => rfl
  | cons entry rest =>
    obtain ⟨k, v⟩ := entry
    simp only [everyEntry, every_and p q k, every_and p q v, everyEntry_and p q rest, Bool.and_assoc,
      Bool.and_left_comm]

end

mutual

/-- Equality of the values as they are, with the entries of mappings in their order. -/
def equal : Node → Node → Bool
  | .null, .null => true
  | .bool a, .bool b => a == b
  | .number a, .number b => a == b
  | .infinity a, .infinity b => a == b
  | .notANumber, .notANumber => true
  | .string a, .string b => a == b
  | .sequence a, .sequence b => equalItems a b
  | .mapping a, .mapping b => equalEntries a b
  | .tagged s a, .tagged t b => s == t && equal a b
  | _, _ => false

def equalItems : List Node → List Node → Bool
  | [], [] => true
  | a :: as, b :: bs => equal a b && equalItems as bs
  | _, _ => false

def equalEntries : List (Node × Node) → List (Node × Node) → Bool
  | [], [] => true
  | (k, a) :: as, (l, b) :: bs => equal k l && equal a b && equalEntries as bs
  | _, _ => false

end

mutual

theorem equal_iff (a b : Node) : equal a b = true ↔ a = b := by
  cases a with
  | sequence items =>
    cases b with
    | sequence others => rw [equal, equalItems_iff, Node.sequence.injEq]
    | _ => simp [equal]
  | mapping entries =>
    cases b with
    | mapping others => rw [equal, equalEntries_iff, Node.mapping.injEq]
    | _ => simp [equal]
  | tagged tag content =>
    cases b with
    | tagged other n => rw [equal, Bool.and_eq_true, beq_iff_eq, equal_iff content n, Node.tagged.injEq]
    | _ => simp [equal]
  | _ => cases b <;> simp [equal]

theorem equalItems_iff (items others : List Node) : equalItems items others = true ↔ items = others := by
  cases items with
  | nil => cases others <;> simp [equalItems]
  | cons n rest =>
    cases others with
    | nil => simp [equalItems]
    | cons m more =>
      rw [equalItems, Bool.and_eq_true, equal_iff n m, equalItems_iff rest more, List.cons.injEq]

theorem equalEntries_iff (entries others : List (Node × Node)) :
    equalEntries entries others = true ↔ entries = others := by
  cases entries with
  | nil => cases others <;> simp [equalEntries]
  | cons entry rest =>
    obtain ⟨k, v⟩ := entry
    cases others with
    | nil => simp [equalEntries]
    | cons other more =>
      obtain ⟨l, w⟩ := other
      rw [equalEntries, Bool.and_eq_true, Bool.and_eq_true, equal_iff k l, equal_iff v w,
        equalEntries_iff rest more, List.cons.injEq, Prod.mk.injEq]

end

instance : DecidableEq Node := fun a b => decidable_of_iff _ (equal_iff a b)

def isTagged : Node → Bool
  | .tagged .. => true
  | _ => false

instance (entries : List (Node × Node)) : Decidable (KeysDiffer entries) :=
  inferInstanceAs (Decidable (entries.Pairwise fun a b => a.1.same b.1 = false))

/-- No two keys are the same, if the value is a mapping. -/
def keysDiffer : Node → Bool
  | .mapping entries => decide (KeysDiffer entries)
  | _ => true

theorem isRead_keysDiffer : IsRead fun _ n => n.every keysDiffer = true where
  leaf {_ n} h := by cases n <;> first | rfl | cases h
  tagged h := by simpa [every, keysDiffer] using h
  sequence h := by simpa [every, keysDiffer] using everyItem_iff.mpr h
  mapping hdiffer h := by
    simpa [every, keysDiffer, hdiffer] using everyEntry_iff.mpr h

/-- In a document that was read, every mapping holds a key once. -/
theorem keysDiffer_parse {text : String} {n : Node} (h : parse text = .ok n) :
    n.every keysDiffer = true :=
  parse_holds isRead_keysDiffer h

/-- No part carries a tag. -/
def isUntagged (n : Node) : Bool := n.every (!·.isTagged)

/-- No part carries a tag, and every mapping holds a key once. -/
def isPlain (n : Node) : Bool := n.every fun part => !part.isTagged && part.keysDiffer

variable {n : Node}

theorem isPlain_iff : n.isPlain = true ↔ n.isUntagged = true ∧ n.every keysDiffer = true := by
  rw [isPlain, every_and, Bool.and_eq_true, isUntagged]

theorem isPlain_sequence_iff {items : List Node} :
    (sequence items).isPlain = true ↔ ∀ n ∈ items, n.isPlain = true := by
  simp only [isPlain, every, isTagged, keysDiffer, Bool.not_false, Bool.and_self, Bool.true_and,
    everyItem_iff]

theorem isPlain_mapping_iff {entries : List (Node × Node)} :
    (mapping entries).isPlain = true ↔
      KeysDiffer entries ∧
        ∀ entry ∈ entries, entry.1.isPlain = true ∧ entry.2.isPlain = true := by
  simp only [isPlain, every, isTagged, keysDiffer, Bool.not_false, Bool.true_and, Bool.and_eq_true,
    decide_eq_true_eq, everyEntry_iff]

theorem bare_of_isPlain (h : n.isPlain = true) : n.bare = n := by
  cases n with
  | tagged tag content => simp [isPlain, every, isTagged] at h
  | _ => rfl

theorem text?_eq_some_iff (h : n.isPlain = true) {s : String} : n.text? = some s ↔ n = .string s := by
  rw [text?, bare_of_isPlain h]
  cases n <;> simp

theorem items?_eq_some_iff (h : n.isPlain = true) {items : List Node} :
    n.items? = some items ↔ n = .sequence items := by
  rw [items?, bare_of_isPlain h]
  cases n <;> simp

theorem entries?_eq_some_iff (h : n.isPlain = true) {entries : List (Node × Node)} :
    n.entries? = some entries ↔ n = .mapping entries := by
  rw [entries?, bare_of_isPlain h]
  cases n <;> simp

theorem mem_of_valueOf? {key : String} {entries : List (Node × Node)} {value : Node}
    (h : valueOf? key entries = some value) : (.string key, value) ∈ entries := by
  fun_induction valueOf? key entries with
  | case1 => cases h
  | case2 v rest =>
    cases h
    exact List.mem_cons_self
  | case3 k v rest hne ih => exact List.mem_cons_of_mem _ (ih h)
  | case4 entry rest hother ih => exact List.mem_cons_of_mem _ (ih h)

theorem valueOf?_eq_none_iff {key : String} {entries : List (Node × Node)} :
    valueOf? key entries = none ↔ ∀ value, (.string key, value) ∉ entries := by
  fun_induction valueOf? key entries with
  | case1 => simp
  | case2 v rest => exact iff_of_false nofun fun h => h v List.mem_cons_self
  | case3 k v rest hne ih => simp [ih, Ne.symm hne]
  | case4 entry rest hother ih =>
    have hhead (value : Node) : (.string key, value) ≠ entry := fun heq => hother key value heq.symm
    simp [ih, hhead]

theorem value_unique {key : String} {entries : List (Node × Node)} {v w : Node}
    (h : KeysDiffer entries) (hv : (.string key, v) ∈ entries)
    (hw : (.string key, w) ∈ entries) : v = w := by
  have hsame : same (.string key) (.string key) ≠ false := by simp [same]
  induction entries with
  | nil => cases hv
  | cons entry rest ih =>
    obtain ⟨hhead, hrest⟩ := List.pairwise_cons.mp h
    rcases List.mem_cons.mp hv with rfl | hvrest
    · rcases List.mem_cons.mp hw with heq | hwrest
      · exact (Prod.mk.inj heq).2.symm
      · exact absurd (hhead _ hwrest) hsame
    · rcases List.mem_cons.mp hw with rfl | hwrest
      · exact absurd (hhead _ hvrest) hsame
      · exact ih hrest hvrest hwrest

theorem valueOf?_eq_some_iff {key : String} {entries : List (Node × Node)} {value : Node}
    (h : KeysDiffer entries) :
    valueOf? key entries = some value ↔ (.string key, value) ∈ entries := by
  refine ⟨mem_of_valueOf?, fun hmem => ?_⟩
  cases hfound : valueOf? key entries with
  | none => exact absurd hmem (valueOf?_eq_none_iff.mp hfound value)
  | some other => rw [value_unique h (mem_of_valueOf? hfound) hmem]

/-! ## Keys, tagged and untagged -/

variable {entries before after : List (Node × Node)} {name : String}

theorem every_bare {p : Node → Bool} (h : n.every p = true) : n.bare.every p = true := by
  fun_induction bare n with
  | case1 tag content ih =>
    apply ih
    rw [every, Bool.and_eq_true] at h
    exact h.2
  | case2 n hother => exact h

theorem keysDiffer_of_entries? (h : n.every keysDiffer = true) (hentries : n.entries? = some entries) :
    KeysDiffer entries ∧ ∀ entry ∈ entries, entry.2.every keysDiffer = true := by
  have hbare := every_bare h
  rw [entries?] at hentries
  split at hentries
  · rename_i found hmapping
    cases hentries
    rw [hmapping, every, Bool.and_eq_true, everyEntry_iff] at hbare
    exact ⟨of_decide_eq_true hbare.1, fun entry hentry => (hbare.2 entry hentry).2⟩
  · cases hentries

theorem eq_string_of_text? (htext : n.text? = some name) (huntagged : n.isTagged = false) :
    n = .string name := by
  cases n with
  | tagged tag content => cases huntagged
  | string s =>
    cases htext
    rfl
  | _ => cases htext

/-- Two keys of one text are different keys only because of their tags. -/
theorem isTagged_of_text?_eq (h : KeysDiffer entries) :
    entries.Pairwise fun a b => ∀ s, a.1.text? = some s → b.1.text? = some s →
      a.1.isTagged = true ∨ b.1.isTagged = true := by
  apply h.imp
  intro a b hdiffer s ha hb
  by_contra hneither
  rw [not_or, Bool.not_eq_true, Bool.not_eq_true] at hneither
  rw [eq_string_of_text? ha hneither.1, eq_string_of_text? hb hneither.2] at hdiffer
  simp [same] at hdiffer

theorem valueOf?_append :
    valueOf? name (before ++ after) = (valueOf? name before).or (valueOf? name after) := by
  fun_induction valueOf? name before with
  | case1 => rfl
  | case2 value rest => simp [valueOf?]
  | case3 k value rest hne ih => simpa [valueOf?, hne] using ih
  | case4 entry rest hother ih =>
    obtain ⟨k, value⟩ := entry
    rw [List.cons_append, valueOf?, ih]
    exact fun s w heq => hother s w heq

/-- The entries that a look-up can come upon. -/
def untagged (entries : List (Node × Node)) : List (Node × Node) :=
  entries.filter fun entry => !entry.1.isTagged

theorem valueOf?_untagged (name : String) (entries : List (Node × Node)) :
    valueOf? name (untagged entries) = valueOf? name entries := by
  induction entries with
  | nil => rfl
  | cons entry rest ih =>
    obtain ⟨k, value⟩ := entry
    cases k with
    | string s =>
      show (if s = name then some value else valueOf? name (untagged rest)) = _
      rw [ih]
      rfl
    | _ => exact ih

end Rulebook.Yaml.Node
