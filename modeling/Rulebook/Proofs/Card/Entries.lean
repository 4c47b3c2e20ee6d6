import Rulebook.Proofs.Card.Strict
import Rulebook.Proofs.Decode.Origin

/-!
# Entries of the tables of a card

The tables `detect` and `refs` of an accepted card have one key for each entry that is written, since an
entry whose name is taken is refused. Defaults are stored without a look at those before them: under the
text of a key the last entry of that text is kept, and the others are lost if there are any.
-/

namespace Rulebook.Card

set_option autoImplicit false

open Yaml (Node)

variable {α : Type} {reads : Node × Node → String × α → Prop} {entries : Entries}
  {pairs : List (String × α)} {document : Node} {card : Card} {field : String}

/-- The entries that are written in a field, none if the document does not have it. -/
def written (field : String) (document : Node) : Entries :=
  ((document.member? field).map Node.members).getD []

/-- The table has as many keys as entries are written, and holds what is read from each of them. -/
structure StoresAll (reads : Node × Node → String × α → Prop) (entries : Entries) (table : Keyed α) :
    Prop where
  rising : table.Rising
  size : table.length = entries.length
  stored : ∀ entry ∈ entries, ∃ pair ∈ table, reads entry pair

theorem storesAll_ofList_iff (h : List.Forall₂ reads entries pairs) :
    StoresAll reads entries (Keyed.ofList pairs) ↔ (Keyed.keys pairs).Nodup := by
  constructor
  · intro hstores
    rw [← Keyed.length_ofList_eq_iff, hstores.size, h.length_eq]
  · intro hdistinct
    refine ⟨Keyed.rising_ofList pairs, ?_, ?_⟩
    · rw [(Keyed.length_ofList_eq_iff pairs).mpr hdistinct, h.length_eq]
    · intro entry hentry
      obtain ⟨pair, hpair, hreads⟩ := exists_of_mem_left h hentry
      exact ⟨pair, (Keyed.mem_ofList_iff hdistinct).mpr hpair, hreads⟩

/-- What is stored under a name is read from the last default of that name. -/
theorem find?_ofList_defaults {pairs : List (String × Json)} (h : List.Forall₂ HasDefault entries pairs)
    (name : String) :
    (Keyed.ofList pairs).find? name = (Node.named name entries).getLast?.bind (·.2.scalar?) := by
  -- from the end, since each default replaces those before it
  induction entries using List.reverseRecOn generalizing pairs with
  | nil =>
    rw [List.forall₂_nil_left_iff.mp h]
    rfl
  | append_singleton entries entry ih =>
    obtain ⟨first, ⟨key, value⟩, hfirst, ⟨hkey, -, hvalue⟩, rfl⟩ := forall₂_concat_iff.mp h
    rw [Keyed.ofList_concat, Keyed.find?_insert, ih hfirst, Node.named, Node.named, List.filter_append]
    by_cases hname : key = name
    · simp [hkey, hname, hvalue]
    · simp [hkey, hname]

/-! ## Fields of a document -/

/-- A field that may be left out: without it nothing is written, and with it the entries of its value. -/
theorem written_cases {absent : Prop} {good : Node → Prop} (hentries : document.entries? = some entries)
    (h : FieldMayHave entries field absent good) :
    absent ∧ written field document = [] ∨
      ∃ value, good value ∧ written field document = value.members := by
  have hmember : document.member? field = Node.valueOf? field entries := by
    rw [Node.member?, hentries, Option.bind_some]
  rw [written, hmember]
  rw [FieldMayHave] at h
  cases hvalue : Node.valueOf? field entries with
  | none =>
    rw [hvalue] at h
    exact .inl ⟨h, rfl⟩
  | some value =>
    rw [hvalue] at h
    exact .inr ⟨value, h, rfl⟩

/-- A table of lists comes from entries with different names. -/
theorem exists_lists {table : Keyed (List String)} (hentries : document.entries? = some entries)
    (h : FieldMayHave entries field (table = []) (HasLists · table)) :
    ∃ pairs, List.Forall₂ HasListEntry (written field document) pairs ∧ (Keyed.keys pairs).Nodup ∧
      Keyed.ofList pairs = table := by
  obtain ⟨habsent, hnone⟩ | ⟨value, ⟨lists, pairs, hlists, hpairs⟩, hwritten⟩ := written_cases hentries h
  · rw [hnone]
    exact ⟨[], .nil, .nil, habsent.symm⟩
  · rw [hwritten, Node.members, hlists]
    exact ⟨pairs, hpairs⟩

theorem exists_defaults {table : Keyed Json} (hentries : document.entries? = some entries)
    (h : FieldMayHave entries field (table = []) (HasDefaults · table)) :
    ∃ pairs, List.Forall₂ HasDefault (written field document) pairs ∧ Keyed.ofList pairs = table := by
  obtain ⟨habsent, hnone⟩ | ⟨value, ⟨defaults, pairs, hdefaults, hpairs⟩, hwritten⟩ :=
    written_cases hentries h
  · rw [hnone]
    exact ⟨[], .nil, habsent.symm⟩
  · rw [hwritten, Node.members, hdefaults]
    exact ⟨pairs, hpairs⟩

theorem keysDiffer_written (hkeys : document.every Node.keysDiffer = true) :
    Yaml.KeysDiffer (written field document) := by
  rw [written]
  cases hfound : document.member? field with
  | none => exact .nil
  | some value =>
    obtain ⟨entries, hentries, hvalue⟩ := Option.bind_eq_some_iff.mp hfound
    have hkeysValue := (Node.keysDiffer_of_entries? hkeys hentries).2 _ (Node.mem_of_valueOf? hvalue)
    rw [Option.map_some, Option.getD_some, Node.members]
    cases hmembers : value.entries? with
    | none => exact .nil
    | some members => exact (Node.keysDiffer_of_entries? hkeysValue hmembers).1

/-- The name under which a list is stored is the text of its key without the blanks around it. -/
theorem nodup_names_iff {pairs : List (String × List String)}
    (h : List.Forall₂ HasListEntry entries pairs) :
    (entries.map fun entry => entry.1.text?.map Text.trim).Nodup ↔ (Keyed.keys pairs).Nodup := by
  refine nodup_map_iff_of_forall₂ (h.imp ?_)
  rintro entry pair ⟨⟨raw, hraw, hname, -⟩, -⟩
  rw [hraw, Option.map_some, hname]

theorem nodup_texts_iff {pairs : List (String × Json)} (h : List.Forall₂ HasDefault entries pairs) :
    (entries.map (·.1.text?)).Nodup ↔ (Keyed.keys pairs).Nodup :=
  nodup_map_iff_of_forall₂ (h.imp fun _ _ hdefault => hdefault.1)

/-- A table of lists holds all that is written, and no two entries of it have one name. -/
theorem storesAll_lists {table : Keyed (List String)} (hentries : document.entries? = some entries)
    (h : FieldMayHave entries field (table = []) (HasLists · table)) :
    StoresAll HasListEntry (written field document) table ∧
      ((written field document).map fun entry => entry.1.text?.map Text.trim).Nodup := by
  obtain ⟨pairs, hpairs, hdistinct, rfl⟩ := exists_lists hentries h
  exact ⟨(storesAll_ofList_iff hpairs).mpr hdistinct, (nodup_names_iff hpairs).mpr hdistinct⟩

/-- The defaults that are written, and what a table keeps of them. -/
structure KeepsLast (entries : Entries) (table : Keyed Json) : Prop where
  sound : ∀ entry ∈ entries, ∃ pair, HasDefault entry pair
  last : ∀ name, table.find? name = (Node.named name entries).getLast?.bind (·.2.scalar?)
  all_iff : StoresAll HasDefault entries table ↔ (entries.map (·.1.text?)).Nodup
  tagged : entries.Pairwise fun a b => ∀ s, a.1.text? = some s → b.1.text? = some s →
    a.1.isTagged = true ∨ b.1.isTagged = true

theorem keepsLast_defaults {table : Keyed Json} (hkeys : document.every Node.keysDiffer = true)
    (hentries : document.entries? = some entries)
    (h : FieldMayHave entries "defaults" (table = []) (HasDefaults · table)) :
    KeepsLast (written "defaults" document) table := by
  obtain ⟨pairs, hpairs, rfl⟩ := exists_defaults hentries h
  constructor
  case sound =>
    intro entry hentry
    obtain ⟨pair, -, hreads⟩ := exists_of_mem_left hpairs hentry
    exact ⟨pair, hreads⟩
  case last => exact find?_ofList_defaults hpairs
  case all_iff => rw [storesAll_ofList_iff hpairs, nodup_texts_iff hpairs]
  case tagged => exact Node.isTagged_of_text?_eq (keysDiffer_written hkeys)

/-- The tables of an accepted card hold every list that is written, and of the defaults the last of each
name: all of them exactly if the texts of their keys differ, and only a tag lets two keys have one text.
Lists of one name are refused. -/
theorem validate_keeps_entries (hkeys : document.every Node.keysDiffer = true) :
    (∀ card, validate document = .ok card →
      StoresAll HasListEntry (written "detect" document) card.detect ∧
      StoresAll HasListEntry (written "refs" document) card.refs ∧
      KeepsLast (written "defaults" document) card.defaults) ∧
    ∀ field ∈ ["detect", "refs"], ∀ a b name, [a, b].Sublist (written field document) →
      a.1.text?.map Text.trim = some name → b.1.text?.map Text.trim = some name →
      ∃ violations, validate document = .error violations := by
  constructor
  · intro card h
    obtain ⟨entries, hentries, -, hfields⟩ := validate_eq_ok_iff.mp h
    exact ⟨(storesAll_lists hentries hfields.detect).1, (storesAll_lists hentries hfields.refs).1,
      keepsLast_defaults hkeys hentries hfields.defaults⟩
  · intro field hfield a b name hsublist ha hb
    cases h : validate document with
    | error violations => exact ⟨violations, rfl⟩
    | ok card =>
      obtain ⟨entries, hentries, -, hfields⟩ := validate_eq_ok_iff.mp h
      have hdistinct : ((written field document).map fun entry => entry.1.text?.map Text.trim).Nodup := by
        rcases List.mem_pair.mp hfield with rfl | rfl
        · exact (storesAll_lists hentries hfields.detect).2
        · exact (storesAll_lists hentries hfields.refs).2
      have hpair := (hsublist.map fun entry => entry.1.text?.map Text.trim).nodup hdistinct
      simp [ha, hb] at hpair

/-- A card that sets a default twice, under a key with a tag and under one without. -/
def retuned : Node := .mapping (sound ++ [(.string "defaults",
  .mapping [(.string "a", .bool true), (.tagged "!x" (.string "a"), .bool false)])])

/-- A card with two lists of one name. -/
def relisted : Node := .mapping (sound ++ [(.string "detect",
  .mapping [(.string "a", .sequence [.string "b"]), (.string "a ", .sequence [.string "c"])])])

theorem validate_keeps_entries_retuned :
    retuned.every Node.keysDiffer = true ∧
      validate retuned = .ok { enforced with defaults := [("a", .bool false)] } ∧
      ¬ StoresAll HasDefault (written "defaults" retuned) [("a", .bool false)] ∧
      relisted.every Node.keysDiffer = true ∧ ∃ violations, validate relisted = .error violations := by
  have hkeys : retuned.every Node.keysDiffer = true := by decide
  have hkeysLists : relisted.every Node.keysDiffer = true := by decide
  have hcard : validate retuned = .ok { enforced with defaults := [("a", .bool false)] } := rfl
  obtain ⟨-, -, hkept⟩ := (validate_keeps_entries hkeys).1 _ hcard
  refine ⟨hkeys, hcard, ?_, hkeysLists, ?_⟩
  · rw [hkept.all_iff]
    decide
  · exact (validate_keeps_entries hkeysLists).2 "detect" List.mem_cons_self _ _ "a" (List.Sublist.refl _)
      rfl rfl

end Rulebook.Card
