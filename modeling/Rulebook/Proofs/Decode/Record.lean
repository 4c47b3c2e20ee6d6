import Rulebook.Decode.Record
import Rulebook.Proofs.Json.Shape
import Rulebook.Proofs.Keyed

/-!
# Decoding what comes from JSON values

A decoder gives back what its source was made of: lists item by item, tables with rising keys, plain
values whose objects are in order, and records from their fields in any order, each once.
-/

namespace Rulebook

set_option autoImplicit false

namespace Decode

variable {α : Type}

theorem text_ofJson (s : String) : text (.ofJson (.string s)) = .ok s := rfl

theorem flag_ofJson (b : Bool) : flag (.ofJson (.bool b)) = .ok b := rfl

theorem items_ofJson {item : Decoder α} {toJson : α → Json} {xs : List α} (i : Nat)
    (h : ∀ x ∈ xs, item (.ofJson (toJson x)) = .ok x) :
    items item i (Source.ofItems (xs.map toJson)) = .ok xs := by
  induction xs generalizing i with
  | nil => rfl
  | cons x xs ih =>
    have hfirst := h x List.mem_cons_self
    have hrest := ih (i + 1) fun y hy => h y (List.mem_cons_of_mem _ hy)
    simp only [List.map_cons, Source.ofItems, items, hfirst, hrest, inside, Except.mapError, bind,
      Except.bind, pure, Except.pure]

theorem list_ofJson (dialect : Dialect) {item : Decoder α} {toJson : α → Json} {xs : List α}
    (h : ∀ x ∈ xs, item (.ofJson (toJson x)) = .ok x) :
    list dialect item (.ofJson (.array (xs.map toJson))) = .ok xs := by
  simp only [list, Source.ofJson, Source.bare, items_ofJson 0 h, endOf, bind, Except.bind]

theorem foldlM_keyedMember {item : Decoder α} {toJson : α → Json} {table : Keyed α}
    (h : ∀ entry ∈ table, item (.ofJson (toJson entry.2)) = .ok entry.2) (start : Keyed α) :
    (Source.ofMembers (table.mapValues toJson)).foldlM (keyedMember item) start =
      .ok (table.foldl (fun start entry => Keyed.insert entry.1 entry.2 start) start) := by
  induction table generalizing start with
  | nil => rfl
  | cons entry rest ih =>
    have hfirst := h entry List.mem_cons_self
    have hrest := ih fun other hother => h other (List.mem_cons_of_mem _ hother)
    simp only [Keyed.mapValues, List.map_cons, Source.ofMembers, List.foldlM_cons, keyedMember,
      text, Source.bare, hfirst, inside, Except.mapError, bind, Except.bind, pure, Except.pure,
      List.foldl_cons]
    exact hrest _

theorem keyed_ofJson (dialect : Dialect) {item : Decoder α} {toJson : α → Json} {table : Keyed α}
    (hrising : table.Rising)
    (h : ∀ entry ∈ table, item (.ofJson (toJson entry.2)) = .ok entry.2) :
    keyed dialect item (.ofJson (.object (table.mapValues toJson))) = .ok table := by
  have hofList : table.foldl (fun start entry => Keyed.insert entry.1 entry.2 start) [] = table :=
    Keyed.ofList_of_rising hrising
  simp only [keyed, Source.ofJson, Source.bare, foldlM_keyedMember h, hofList, endOf, bind,
    Except.bind]

mutual

theorem json_ofJson (v : Json) (h : v.IsOrdered) : json (.ofJson v) = .ok v := by
  cases v with
  | null | bool | number | string => rfl
  | array items =>
    have hitems := jsonItems_ofItems items h
    simp only [Source.ofJson, json, hitems, endOf, bind, Except.bind]
  | object members =>
    have hmembers := jsonMembers_ofMembers members [] "a string key" h.2 h.1
    simp only [Source.ofJson, json, hmembers, endOf, bind, Except.bind, List.nil_append]

theorem jsonItems_ofItems (items : List Json) (h : Json.AreOrdered items) :
    jsonItems (Source.ofItems items) = .ok items := by
  cases items with
  | nil => rfl
  | cons v rest =>
    simp only [Source.ofItems, jsonItems, json_ofJson v h.1, jsonItems_ofItems rest h.2, bind,
      Except.bind, pure, Except.pure]

theorem jsonMembers_ofMembers (members : List (String × Json)) (table : Keyed Json)
    (expected : String) (h : Json.MembersOrdered members)
    (hrising : Keyed.Rising (table ++ members)) :
    jsonMembers expected table (Source.ofMembers members) = .ok (table ++ members) := by
  cases members with
  | nil => simp [Source.ofMembers, jsonMembers]
  | cons member rest =>
    obtain ⟨name, v⟩ := member
    have hlast : ∀ other ∈ table, other.1 < name := fun other hother =>
      (List.pairwise_append.mp hrising).2.2 other hother (name, v) List.mem_cons_self
    have hrest := jsonMembers_ofMembers rest (table ++ [(name, v)]) "a string" h.2
      (by simpa using hrising)
    simp only [Source.ofMembers, jsonMembers, keyText, Source.bare, json_ofJson v h.1,
      Keyed.insert_of_last hlast, hrest, bind, Except.bind, List.append_assoc,
      List.singleton_append]

end

namespace Layout

variable {layout : Layout α}

theorem step_ok {name : String} {value value' : α} {seen : List String} {source : Source}
    (hfield : name ∈ layout.fields) (hnew : name ∉ seen)
    (hput : layout.put value name source = .ok value') :
    layout.step (value, seen) (.text name, source) = .ok (value', name :: seen) := by
  simp only [step, keyText, Source.bare, bind, Except.bind, if_pos hfield, if_neg hnew, hput, inside,
    Except.mapError, pure, Except.pure]

theorem foldlM_step {members : List (String × Json)} {value value' : α} {seen : List String}
    (hfields : ∀ member ∈ members, member.1 ∈ layout.fields)
    (hdistinct : (members.map (·.1)).Nodup) (hnew : ∀ member ∈ members, member.1 ∉ seen)
    (hput : members.foldlM (fun value member => layout.put value member.1 (.ofJson member.2)) value =
      .ok value') :
    (Source.ofMembers members).foldlM layout.step (value, seen) =
      .ok (value', (members.map (·.1)).reverse ++ seen) := by
  induction members generalizing value seen with
  | nil =>
    cases hput
    rfl
  | cons member rest ih =>
    obtain ⟨name, v⟩ := member
    rw [List.map_cons, List.nodup_cons] at hdistinct
    rw [List.foldlM_cons] at hput
    cases hfirst : layout.put value name (.ofJson v) with
    | error e =>
      rw [hfirst] at hput
      cases hput
    | ok next =>
      rw [hfirst] at hput
      have hstep := step_ok (hfields _ List.mem_cons_self) (hnew _ List.mem_cons_self) hfirst
      have hnext : ∀ other ∈ rest, other.1 ∉ name :: seen := by
        intro other hother hmem
        rcases List.mem_cons.mp hmem with heq | hmem
        · exact hdistinct.1 (List.mem_map.mpr ⟨other, hother, heq⟩)
        · exact hnew other (List.mem_cons_of_mem _ hother) hmem
      have hrest := ih (fun other hother => hfields other (List.mem_cons_of_mem _ hother))
        hdistinct.2 hnext hput
      rw [Source.ofMembers, List.foldlM_cons, hstep]
      simpa [bind, Except.bind] using hrest

/-- A record is decoded from an object that has its fields in order, where only those may lack that
are optional. -/
theorem decode_object {dialect : Dialect} {members : List (String × Json)} {value : α}
    (hdistinct : layout.fields.Nodup) (hnames : (members.map (·.1)).Sublist layout.fields)
    (hneeded : ∀ name ∈ layout.fields, name ∈ members.map (·.1) ∨ name ∈ layout.optional)
    (hput : members.foldlM (fun value member => layout.put value member.1 (.ofJson member.2))
      layout.blank = .ok value) :
    layout.decode dialect (.ofJson (.object members)) = .ok value := by
  have hfold := foldlM_step (fun member hmember => hnames.subset (List.mem_map_of_mem hmember))
    (hdistinct.sublist hnames) (fun _ _ => List.not_mem_nil) hput
  have hmissing : layout.firstMissing ((members.map (·.1)).reverse ++ []) = none := by
    rw [firstMissing, List.find?_eq_none]
    intro name hname
    rcases hneeded name hname with h | h <;> simp_all
  simp only [decode, Source.ofJson, Source.bare, ofMembers, hfold, endOf, bind, Except.bind, hmissing,
    pure, Except.pure]

end Layout

end Decode

end Rulebook
