import Rulebook.Proofs.Yaml.Wording

/-!
# Wording of decoding errors

The message about a YAML value that cannot be decoded is on one line, unless it repeats the key of a
member that is no field.
-/

namespace Rulebook

set_option autoImplicit false

open Yaml (Node)
open Text (IsLine IsComposed isLine_append)

/-! ## What a step fails with -/

/-- Every error that the step can end in is like this. -/
def FailsOnly {ε α : Type} (x : Except ε α) (p : ε → Prop) : Prop := ∀ e, x = .error e → p e

section

variable {ε α β : Type} {p : ε → Prop} {x : Except ε α}

theorem failsOnly_ok {a : α} : FailsOnly (.ok a : Except ε α) p := fun _ h => nomatch h

theorem failsOnly_error {e : ε} (h : p e) : FailsOnly (.error e : Except ε α) p := by
  rintro _ ⟨⟩
  exact h

theorem FailsOnly.bind {f : α → Except ε β} (hx : FailsOnly x p)
    (hf : ∀ a, x = .ok a → FailsOnly (f a) p) : FailsOnly (x >>= f) p := by
  cases x with
  | error e => exact failsOnly_error (hx e rfl)
  | ok a => exact hf a rfl

theorem failsOnly_foldlM {step : β → α → Except ε β} {xs : List α}
    (hstep : ∀ b, ∀ x ∈ xs, FailsOnly (step b x) p) (b : β) : FailsOnly (xs.foldlM step b) p := by
  induction xs generalizing b with
  | nil => exact failsOnly_ok
  | cons x rest ih =>
    obtain ⟨hx, hrest⟩ := List.forall_mem_cons (p := fun x => ∀ b, FailsOnly (step b x) p) |>.mp
      fun x hx b => hstep b x hx
    rw [List.foldlM_cons]
    exact (hx b).bind fun next _ => ih (fun b y hy => hrest y hy b) next

end

namespace Decode

/-- The message is put together from wording and from texts of a kind. -/
def Error.Tells (repeated : String → Prop) (e : Error) : Prop := IsComposed repeated (e.message .yaml)

variable {α : Type} {repeated : String → Prop} {item : Decoder α} {n : Node}

theorem isLine_ticked {s : String} (h : IsLine s) : IsLine (ticked s) := by
  rw [ticked, isLine_append, isLine_append]
  exact ⟨⟨by decide, h⟩, by decide⟩

theorem isLine_oneOf {names : List String} (h : ∀ name ∈ names, IsLine name) : IsLine (oneOf names) := by
  unfold oneOf
  split
  · decide
  · rw [isLine_append]
    exact ⟨by decide, isLine_ticked (h _ List.mem_cons_self)⟩
  · rw [isLine_append, isLine_append, isLine_append]
    refine ⟨⟨⟨by decide, isLine_ticked (h _ List.mem_cons_self)⟩, by decide⟩, isLine_ticked (h _ ?_)⟩
    exact List.mem_cons_of_mem _ List.mem_cons_self
  · rw [isLine_append]
    refine ⟨by decide, .intercalate (by decide) fun part hpart => ?_⟩
    obtain ⟨name, hname, rfl⟩ := List.mem_map.mp hpart
    exact isLine_ticked (h name hname)

/-! ## Plain values -/

theorem tells_wrongType {found : Found} {expected : String} (hfound : IsLine (found.describe .yaml))
    (hexpected : IsLine expected) : (Error.wrongType found expected).Tells repeated := by
  have hmessage : IsLine ("invalid type: " ++ found.describe .yaml ++ ", expected " ++ expected) := by
    rw [isLine_append, isLine_append, isLine_append]
    exact ⟨⟨⟨by decide, hfound⟩, by decide⟩, hexpected⟩
  exact .wording hmessage

theorem tells_mismatch {expected : String} (h : IsLine expected) (n : Node) :
    (mismatch expected n.toSource).Tells repeated := by
  have hmarked {front s : String} (hfront : IsLine front) (hs : IsLine s) : IsLine (front ++ ticked s) :=
    isLine_append.mpr ⟨hfront, isLine_ticked hs⟩
  cases n with
  | null | sequence | mapping | tagged => exact tells_wrongType (by decide) h
  | notANumber => exact tells_wrongType (hmarked (by decide) (by decide)) h
  | infinity negative => exact tells_wrongType (hmarked (by decide) (by cases negative <;> decide)) h
  | bool b => exact tells_wrongType (hmarked (by decide) (by cases b <;> decide)) h
  | number n =>
    cases n with
    | whole n => exact tells_wrongType (hmarked (by decide) (isLine_toString_int n.val)) h
    | real d => exact tells_wrongType (hmarked (by decide) (RealStyle.isLine_render d)) h
  | string s => exact tells_wrongType (isLine_append.mpr ⟨by decide, Text.isLine_quoted s⟩) h

theorem text_failsOnly (n : Node) : FailsOnly (text n.toSource) (·.Tells repeated) := by
  rw [text, Node.bare_toSource]
  split
  · exact failsOnly_ok
  · exact failsOnly_error (tells_mismatch (by decide) n.bare)

theorem keyText_failsOnly {expected : String} (h : IsLine expected) (n : Node) :
    FailsOnly (keyText expected n.toSource) (·.Tells repeated) := by
  rw [keyText, Node.bare_toSource]
  split
  · exact failsOnly_ok
  · exact failsOnly_error (tells_mismatch h n.bare)

theorem inside_failsOnly {step : Step} {result : Except Error α}
    (h : FailsOnly result (·.Tells repeated)) : FailsOnly (inside step result) (·.Tells repeated) := by
  cases result with
  | error e => exact failsOnly_error (h e rfl)
  | ok value => exact failsOnly_ok

theorem items_failsOnly (hitem : ∀ n : Node, FailsOnly (item n.toSource) (·.Tells repeated))
    (i : Nat) (ns : List Node) : FailsOnly (items item i (Node.itemSources ns)) (·.Tells repeated) := by
  induction ns generalizing i with
  | nil => exact failsOnly_ok
  | cons n rest ih =>
    rw [Node.itemSources, items]
    exact (inside_failsOnly (hitem n)).bind fun _ _ => (ih (i + 1)).bind fun _ _ => failsOnly_ok

theorem list_failsOnly (hitem : ∀ n : Node, FailsOnly (item n.toSource) (·.Tells repeated)) (n : Node) :
    FailsOnly (list .yaml item n.toSource) (·.Tells repeated) := by
  rw [list, Node.bare_toSource]
  cases n.bare with
  | sequence ns => exact (items_failsOnly hitem 0 ns).bind fun _ _ => failsOnly_ok
  | null => exact failsOnly_ok
  | bool | number | infinity | notANumber | string | mapping | tagged =>
    exact failsOnly_error (tells_mismatch (by decide) _)

theorem keyed_failsOnly (hitem : ∀ n : Node, FailsOnly (item n.toSource) (·.Tells repeated)) (n : Node) :
    FailsOnly (keyed .yaml item n.toSource) (·.Tells repeated) := by
  rw [keyed, Node.bare_toSource]
  cases n.bare with
  | mapping entries =>
    dsimp only [Node.toSource]
    rw [Node.entrySources_eq]
    refine (failsOnly_foldlM (fun table member hmember => ?_) []).bind fun _ _ => failsOnly_ok
    obtain ⟨entry, -, rfl⟩ := List.mem_map.mp hmember
    exact (text_failsOnly entry.1).bind fun _ _ =>
      (inside_failsOnly (hitem entry.2)).bind fun _ _ => failsOnly_ok
  | null => exact failsOnly_ok
  | bool | number | infinity | notANumber | string | sequence | tagged =>
    exact failsOnly_error (tells_mismatch (by decide) _)

mutual

theorem json_failsOnly (n : Node) : FailsOnly (json n.toSource) (·.Tells repeated) := by
  cases n with
  | null | bool | number | infinity | notANumber | string =>
    rw [Node.toSource, json]
    exact failsOnly_ok
  | sequence items =>
    rw [Node.toSource, json]
    exact (jsonItems_failsOnly items).bind fun _ _ => failsOnly_ok
  | mapping entries =>
    rw [Node.toSource, json]
    exact (jsonMembers_failsOnly (by decide) [] entries).bind fun _ _ => failsOnly_ok
  | tagged tag content =>
    rw [Node.toSource, json]
    exact failsOnly_error (tells_wrongType (by decide) (by decide))

theorem jsonItems_failsOnly (items : List Node) :
    FailsOnly (jsonItems (Node.itemSources items)) (·.Tells repeated) := by
  cases items with
  | nil =>
    rw [Node.itemSources, jsonItems]
    exact failsOnly_ok
  | cons n rest =>
    rw [Node.itemSources, jsonItems]
    exact (json_failsOnly n).bind fun _ _ => (jsonItems_failsOnly rest).bind fun _ _ => failsOnly_ok

theorem jsonMembers_failsOnly {expected : String} (h : IsLine expected) (table : Keyed Json)
    (entries : List (Node × Node)) :
    FailsOnly (jsonMembers expected table (Node.entrySources entries)) (·.Tells repeated) := by
  cases entries with
  | nil =>
    rw [Node.entrySources, jsonMembers]
    exact failsOnly_ok
  | cons entry rest =>
    obtain ⟨k, v⟩ := entry
    rw [Node.entrySources, jsonMembers]
    exact (keyText_failsOnly h k).bind fun _ _ => (json_failsOnly v).bind fun _ _ =>
      jsonMembers_failsOnly (by decide) _ rest

end

theorem endOf_failsOnly {flaw : Option Json.Flaw} {value : α} :
    FailsOnly (endOf flaw value) (·.Tells repeated) := by
  cases flaw with
  | none => exact failsOnly_ok
  | some flaw => exact failsOnly_error (.wording flaw.fault.isLine_message)

/-! ## Records -/

theorem tells_duplicateField {name : String} (h : IsLine name) : (Error.duplicateField name).Tells repeated :=
  .wording (isLine_append.mpr ⟨by decide, isLine_ticked h⟩)

theorem tells_missingField {name : String} (h : IsLine name) : (Error.missingField name).Tells repeated :=
  .wording (isLine_append.mpr ⟨by decide, isLine_ticked h⟩)

theorem tells_unknownField {name : String} {allowed : List String} (h : repeated name)
    (hallowed : ∀ name ∈ allowed, IsLine name) : (Error.unknownField name allowed).Tells repeated := by
  have hname : IsComposed repeated (ticked name) :=
    .append (.append (.wording (by decide)) (.part h)) (.wording (by decide))
  exact .append (.append (.append (.wording (by decide)) hname) (.wording (by decide)))
    (.wording (isLine_oneOf hallowed))

namespace Layout

variable {layout : Layout α}

/-- The fixed wording of a record is on one line. -/
structure IsWorded (layout : Layout α) : Prop where
  name : IsLine layout.name
  fields : ∀ field ∈ layout.fields, IsLine field

theorem step_failsOnly (hlayout : layout.IsWorded) {entry : Node × Node} (progress : α × List String)
    (hput : ∀ value name, entry.1.text? = some name →
      FailsOnly (layout.put value name entry.2.toSource) (·.Tells repeated))
    (hkey : ∀ name, entry.1.text? = some name → repeated name) :
    FailsOnly (layout.step progress (entry.1.toSource, entry.2.toSource)) (·.Tells repeated) := by
  refine (keyText_failsOnly (by decide) entry.1).bind fun name hname => ?_
  rw [keyText_ok_iff, Node.text_toSource_iff] at hname
  split
  · rename_i hfield
    split
    · exact failsOnly_error (tells_duplicateField (hlayout.fields name hfield))
    · exact (inside_failsOnly (hput _ name hname)).bind fun _ _ => failsOnly_ok
  · split
    · exact failsOnly_error (tells_unknownField (hkey name hname) hlayout.fields)
    · exact endOf_failsOnly

theorem ofMembers_failsOnly (hlayout : layout.IsWorded) {entries : List (Node × Node)}
    (hput : ∀ value, ∀ entry ∈ entries, ∀ name, entry.1.text? = some name →
      FailsOnly (layout.put value name entry.2.toSource) (·.Tells repeated))
    (hkeys : ∀ entry ∈ entries, ∀ name, entry.1.text? = some name → repeated name) :
    FailsOnly (layout.ofMembers (Node.entrySources entries) none) (·.Tells repeated) := by
  rw [ofMembers, Node.entrySources_eq]
  have hsteps : FailsOnly (List.foldlM layout.step (layout.blank, [])
      (entries.map fun entry => (entry.1.toSource, entry.2.toSource))) (·.Tells repeated) := by
    refine failsOnly_foldlM (fun progress member hmember => ?_) _
    obtain ⟨entry, hentry, rfl⟩ := List.mem_map.mp hmember
    exact step_failsOnly hlayout progress (fun value => hput value entry hentry) (hkeys entry hentry)
  refine hsteps.bind fun _ _ => endOf_failsOnly.bind fun progress _ => ?_
  obtain ⟨value, seen⟩ := progress
  dsimp only
  split
  · rename_i name hmissing
    exact failsOnly_error (tells_missingField (hlayout.fields name (List.mem_of_find?_eq_some hmissing)))
  · exact failsOnly_ok

/-- A record repeats the keys of its members, and whatever their values do. -/
theorem decode_failsOnly (hlayout : layout.IsWorded) (n : Node)
    (hput : ∀ value, ∀ entry ∈ n.members, ∀ name, entry.1.text? = some name →
      FailsOnly (layout.put value name entry.2.toSource) (·.Tells repeated))
    (hkeys : ∀ name, n.HasKey name → repeated name) :
    FailsOnly (layout.decode .yaml n.toSource) (·.Tells repeated) := by
  rw [decode, Node.bare_toSource]
  cases hbare : n.bare with
  | mapping entries =>
    have hmembers : n.members = entries := by
      rw [Node.members, Node.entries?, hbare]
      rfl
    rw [hmembers] at hput
    refine ofMembers_failsOnly hlayout hput fun entry hentry name hname => hkeys name ⟨entry, ?_, hname⟩
    rwa [hmembers]
  -- nothing at all is read as a record without members
  | null =>
    have hnone : FailsOnly (layout.ofMembers (Node.entrySources []) none) (·.Tells repeated) :=
      ofMembers_failsOnly hlayout (by simp) (by simp)
    exact hnone
  | sequence items => exact failsOnly_error (tells_mismatch hlayout.name (.sequence items))
  | bool | number | infinity | notANumber | string | tagged =>
    exact failsOnly_error (tells_mismatch hlayout.name _)

end Layout

end Decode

end Rulebook
