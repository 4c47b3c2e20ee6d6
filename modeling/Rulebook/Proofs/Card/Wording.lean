import Rulebook.Card.Text
import Rulebook.Proofs.Card.Violations
import Rulebook.Proofs.Yaml.Wording

/-!
# Wording of violations

A violation names its field, and says what is wrong with it, in fixed wording, numbers, and texts of the
document that are repeated as they stand: an id, a severity, and the names in the document that are chosen
freely or are not known. Everything else in its message is on one line.
-/

namespace Rulebook

set_option autoImplicit false

open Yaml (Node)
open Text (IsLine IsComposed isLine_append)

/-- The field and the message are put together from wording and from texts of a kind. -/
structure Violation.Tells (repeated : String → Prop) (v : Violation) : Prop where
  field : IsComposed repeated v.field
  message : IsComposed repeated v.kind.message

namespace Card

variable {α : Type} {repeated : String → Prop} {document value : Node} {entries : Entries}
  {key field name : String} {kind : ViolationKind}

/-- The texts that the violations of a document repeat as they stand. -/
inductive Echoes (document : Node) : String → Prop
  | id {value : Node} {s : String} (hvalue : document.member? "id" = some value)
      (htext : value.text? = some s) : Echoes document (Text.trim s)
  | severity {value : Node} {s : String} (hvalue : document.member? "severity" = some value)
      (htext : value.text? = some s) : Echoes document (Text.trim s)
  | unknownKey {name : String} (hname : document.HasKey name) (hnew : name ∉ fields) : Echoes document name
  | unknownTest {value : Node} {name : String} (hvalue : document.member? "verify" = some value)
      (hname : value.HasKey name) (hnew : name ∉ verifyFields) : Echoes document name
  | listName {field : String} {lists : Node} {name : String} (hfield : field ∈ ["detect", "refs"])
      (hlists : document.member? field = some lists) (hname : lists.HasKey name) :
      Echoes document (Text.trim name)
  | defaultName {defaults : Node} {name : String} (hdefaults : document.member? "defaults" = some defaults)
      (hname : defaults.HasKey name) : Echoes document name

/-! ## Checks of values -/

theorem tells_of_line (hfield : IsLine field) (hmessage : IsComposed repeated kind.message) :
    (⟨field, kind⟩ : Violation).Tells repeated :=
  ⟨.wording hfield, hmessage⟩

theorem tells_line (hfield : IsComposed repeated field) (hkind : IsLine kind.message) :
    (⟨field, kind⟩ : Violation).Tells repeated :=
  ⟨hfield, .wording hkind⟩

theorem isLine_lengthOutOfRange (least : Nat) (most : Option Nat) (actual : Nat) :
    IsLine (ViolationKind.lengthOutOfRange least most actual).message := by
  have hrange : IsLine (ViolationKind.rangeText least most) := by
    cases most with
    | none => exact .append (isLine_toString_nat least) (by decide)
    | some most => exact .append (.append (isLine_toString_nat least) (by decide)) (isLine_toString_nat most)
  exact .append (.append (.append (by decide) (isLine_toString_nat actual)) (by decide)) hrange

theorem checkText_tells (hfield : IsComposed repeated field) (value : Node) :
    (checkText field value).FindsOnly (·.Tells repeated) := by
  rw [checkText]
  split
  · exact Checked.findsOnly_fail (tells_line hfield (by decide))
  · dsimp only
    split
    · exact Checked.findsOnly_fail (tells_line hfield (by decide))
    · exact Checked.findsOnly_ok

theorem checkItems_tells (hfield : IsComposed repeated field) (i : Nat) (items : List Node) :
    (checkItems field i items).FindsOnly (·.Tells repeated) := by
  induction items generalizing i with
  | nil => exact Checked.findsOnly_ok
  | cons item rest ih =>
    have hplace : IsComposed repeated (field ++ "[" ++ toString i ++ "]") :=
      .append (.append (.append hfield (.wording (by decide))) (.wording (isLine_toString_nat i)))
        (.wording (by decide))
    exact (Checked.findsOnly_ok.also (checkText_tells hplace item)).also (ih (i + 1))

theorem checkList_tells (hfield : IsComposed repeated field) (value : Node) :
    (checkList field value).FindsOnly (·.Tells repeated) := by
  rw [checkList]
  split
  · exact Checked.findsOnly_fail (tells_line hfield (by decide))
  · exact Checked.findsOnly_fail (tells_line hfield (by decide))
  · exact checkItems_tells hfield _ _

theorem required_tells (hfield : IsComposed repeated field) (entries : Entries) (key : String) :
    (required entries key field).FindsOnly (·.Tells repeated) := by
  rw [required]
  split
  · exact Checked.findsOnly_fail (tells_line hfield (by decide))
  · exact Checked.findsOnly_fail (tells_line hfield (by decide))
  · exact Checked.findsOnly_ok

theorem value_required (h : (required entries key field).value = some value) :
    Node.valueOf? key entries = some value := by
  rw [required] at h
  split at h
  · cases h
  · cases h
  · rename_i hvalue
    cases h
    exact hvalue

theorem value_checkText {s : String} (h : (checkText field value).value = some s) :
    ∃ text, value.text? = some text ∧ s = Text.trim text := by
  rw [checkText] at h
  split at h
  · cases h
  · rename_i text htext
    dsimp only at h
    split at h
    · cases h
    · cases h
      exact ⟨text, htext, rfl⟩

/-! ## Checks of fields -/

theorem requiredText_tells {check : String → Checked α} (hkey : IsLine key)
    (h : ∀ value s, Node.valueOf? key entries = some value → value.text? = some s →
      (check (Text.trim s)).FindsOnly (·.Tells repeated)) :
    (required entries key key >>= fun value => checkText key value >>= check).FindsOnly
      (·.Tells repeated) := by
  refine (required_tells (.wording hkey) entries key).bind_value fun value hvalue => ?_
  refine (checkText_tells (.wording hkey) value).bind_value fun s hs => ?_
  obtain ⟨text, htext, rfl⟩ := value_checkText hs
  exact h value text (value_required hvalue) htext

theorem requiredList_tells (hfield : IsLine field) (entries : Entries) (key : String) :
    (requiredList entries key field).FindsOnly (·.Tells repeated) :=
  (required_tells (.wording hfield) entries key).bind fun value => checkList_tells (.wording hfield) value

theorem checkLength_tells (hkey : IsLine key) (entries : Entries) (lengths : Nat × Option Nat) :
    (checkLength entries key lengths).FindsOnly (·.Tells repeated) := by
  refine requiredText_tells hkey fun _ s _ _ => ?_
  exact Checked.findsOnly_unless (tells_line (.wording hkey) (isLine_lengthOutOfRange _ _ _))

theorem checkFlag_tells (hfield : IsLine field) (entries : Entries) :
    (checkFlag entries field).FindsOnly (·.Tells repeated) := by
  rw [checkFlag]
  split
  · exact Checked.findsOnly_ok
  · exact Checked.findsOnly_ok
  · exact Checked.findsOnly_fail (tells_line (.wording hfield) (by decide))

theorem checkScope_tells (entries : Entries) : (checkScope entries).FindsOnly (·.Tells repeated) :=
  requiredText_tells (by decide) fun _ _ _ _ =>
    Checked.findsOnly_unless (tells_line (.wording (by decide)) (by decide))

theorem checkId_tells
    (h : ∀ value s, Node.valueOf? "id" entries = some value → value.text? = some s → repeated (Text.trim s)) :
    (checkId entries).FindsOnly (·.Tells repeated) := by
  refine requiredText_tells (by decide) fun value s hvalue htext => ?_
  refine Checked.findsOnly_if (tells_of_line (by decide) ?_)
  exact .append (.append (.wording (by decide)) (.part (h value s hvalue htext))) (.wording (by decide))

theorem checkSeverity_tells
    (h : ∀ value s, Node.valueOf? "severity" entries = some value → value.text? = some s →
      repeated (Text.trim s)) :
    (checkSeverity entries).FindsOnly (·.Tells repeated) := by
  refine requiredText_tells (by decide) fun value s hvalue htext => ?_
  split
  · exact Checked.findsOnly_ok
  · refine Checked.findsOnly_fail (tells_of_line (by decide) ?_)
    exact .append (.append (.append (.wording (by decide)) (.part (h value s hvalue htext)))
      (.wording (by decide))) (.wording (by decide))

/-! ## Tables -/

theorem checkListEntry_tells (hfield : IsLine field) {entry : Node × Node}
    (h : ∀ name, entry.1.text? = some name → repeated (Text.trim name)) (filling : Filling (List String))
    (hfilling : filling.FindsOnly (·.Tells repeated)) :
    (checkListEntry field filling entry).FindsOnly (·.Tells repeated) := by
  rw [checkListEntry]
  split
  · have hplace : IsLine (field ++ ".<key>") := isLine_append.mpr ⟨hfield, by decide⟩
    exact hfilling.refuse (tells_line (.wording hplace) (by decide))
  · rename_i name hname
    -- the name is shown without the blanks around it
    obtain ⟨text, htext, rfl⟩ := Option.map_eq_some_iff.mp (Option.filter_eq_some_iff.mp hname).1
    have hname : IsComposed repeated (Text.trim text) := .part (h text htext)
    have hplace : IsComposed repeated (field ++ "." ++ Text.trim text) :=
      .append (.wording (isLine_append.mpr ⟨hfield, by decide⟩)) hname
    split
    · exact hfilling.refuse
        ⟨hplace, .append (.append (.wording (by decide)) hname) (.wording (by decide))⟩
    · exact hfilling.store (checkList_tells hplace entry.2) _

theorem checkDefault_tells {entry : Node × Node} (h : ∀ name, entry.1.text? = some name → repeated name)
    (filling : Filling Json) (hfilling : filling.FindsOnly (·.Tells repeated)) :
    (checkDefault filling entry).FindsOnly (·.Tells repeated) := by
  rw [checkDefault]
  split
  · exact hfilling.refuse (tells_line (.wording (by decide)) (by decide))
  · rename_i name hname
    split
    · exact hfilling.store Checked.findsOnly_ok _
    · have hplace : IsComposed repeated ("defaults." ++ name) :=
        .append (.wording (by decide)) (.part (h name (Option.filter_eq_some_iff.mp hname).1))
      exact hfilling.refuse (tells_line hplace (by decide))

theorem checkLists_tells (hfield : IsLine field)
    (h : ∀ lists name, Node.valueOf? field entries = some lists → lists.HasKey name →
      repeated (Text.trim name)) :
    (checkLists entries field).FindsOnly (·.Tells repeated) := by
  rw [checkLists]
  split
  · exact Checked.findsOnly_ok
  · rename_i lists hlists
    split
    · exact Checked.findsOnly_fail (tells_line (.wording hfield) (by decide))
    · rename_i rows hrows
      refine Filling.findsOnly_checked_of_mem fun row hrow => checkListEntry_tells hfield fun name hname => ?_
      exact h lists name hlists ⟨row, by rwa [Node.members, hrows], hname⟩

theorem checkDefaults_tells
    (h : ∀ defaults name, Node.valueOf? "defaults" entries = some defaults → defaults.HasKey name →
      repeated name) :
    (checkDefaults entries).FindsOnly (·.Tells repeated) := by
  rw [checkDefaults]
  split
  · exact Checked.findsOnly_ok
  · rename_i defaults hdefaults
    split
    · exact Checked.findsOnly_fail (tells_line (.wording (by decide)) (by decide))
    · rename_i rows hrows
      refine Filling.findsOnly_checked_of_mem fun row hrow => checkDefault_tells fun name hname => ?_
      exact h defaults name hdefaults ⟨row, by rwa [Node.members, hrows], hname⟩

theorem unknownKeys_tells {place : String} {allowed : List String} (hplace : IsLine place)
    (hallowed : IsLine (", ".intercalate allowed))
    (h : ∀ entry ∈ entries, ∀ name, entry.1.text? = some name → name ∉ allowed → repeated name) :
    ∀ v ∈ unknownKeys place allowed entries, v.Tells repeated := by
  intro v hv
  obtain ⟨entry, hentry, hsome⟩ := List.mem_filterMap.mp hv
  dsimp only at hsome
  split at hsome
  · rename_i name hname
    split at hsome
    · cases hsome
    · rename_i hnew
      cases hsome
      exact tells_line (.append (.wording hplace) (.part (h entry hentry name hname hnew)))
        (.append (.append (by decide) hallowed) (by decide))
  · cases hsome
    exact tells_line (.append (.wording hplace) (.wording (by decide))) (by decide)

theorem checkVerify_tells
    (h : ∀ value name, Node.valueOf? "verify" entries = some value → value.HasKey name →
      name ∉ verifyFields → repeated name) :
    (checkVerify entries).FindsOnly (·.Tells repeated) := by
  refine (required_tells (.wording (by decide)) entries "verify").bind_value fun value hvalue => ?_
  split
  · exact Checked.findsOnly_fail (tells_line (.wording (by decide)) (by decide))
  · rename_i part hpart
    refine List.forall_mem_append.mpr ⟨?_, requiredList_tells (by decide) part "tests"⟩
    refine unknownKeys_tells (by decide) (by decide) fun entry hentry name hname => ?_
    exact h value name (value_required hvalue) ⟨entry, by rwa [Node.members, hpart], hname⟩

/-! ## Documents -/

theorem checkFields_tells (hentries : document.entries? = some entries) :
    (checkFields entries).FindsOnly (·.Tells (Echoes document)) := by
  have hmember (key : String) : document.member? key = Node.valueOf? key entries := by
    rw [Node.member?, hentries, Option.bind_some]
  have hlists (field : String) (hfield : field ∈ ["detect", "refs"]) :
      ∀ lists name, Node.valueOf? field entries = some lists → lists.HasKey name →
        Echoes document (Text.trim name) := by
    intro lists name hvalue hname
    exact .listName hfield ((hmember field).trans hvalue) hname
  have hid : (checkId entries).FindsOnly (·.Tells (Echoes document)) :=
    checkId_tells fun value s hvalue htext => .id ((hmember "id").trans hvalue) htext
  have hseverity : (checkSeverity entries).FindsOnly (·.Tells (Echoes document)) :=
    checkSeverity_tells fun value s hvalue htext => .severity ((hmember "severity").trans hvalue) htext
  have hverify : (checkVerify entries).FindsOnly (·.Tells (Echoes document)) :=
    checkVerify_tells fun value name hvalue hname hnew => .unknownTest ((hmember "verify").trans hvalue) hname hnew
  have hdefaults : (checkDefaults entries).FindsOnly (·.Tells (Echoes document)) :=
    checkDefaults_tells fun defaults name hvalue hname => .defaultName ((hmember "defaults").trans hvalue) hname
  exact Checked.findsOnly_ok.also hid
    |>.also (checkLength_tells (by decide) entries titleLengths)
    |>.also hseverity
    |>.also (checkScope_tells entries)
    |>.also (checkLength_tells (by decide) entries requirementLengths)
    |>.also (requiredList_tells (by decide) entries "do")
    |>.also (requiredList_tells (by decide) entries "dont")
    |>.also (checkLists_tells (by decide) (hlists "detect" (by decide)))
    |>.also hverify
    |>.also (checkLists_tells (by decide) (hlists "refs" (by decide)))
    |>.also (checkFlag_tells (by decide) entries)
    |>.also hdefaults

theorem validate_tells {violations : List Violation} (h : validate document = .error violations) :
    ∀ v ∈ violations, v.Tells (Echoes document) := by
  rw [validate] at h
  split at h
  · cases h
    exact List.forall_mem_singleton.mpr (tells_line (.wording (by decide)) (by decide))
  · rename_i entries hentries
    have hkeys : ∀ v ∈ unknownKeys "" fields entries, v.Tells (Echoes document) := by
      refine unknownKeys_tells (by decide) (by decide) fun entry hentry name hname hnew => ?_
      exact .unknownKey ⟨entry, by rwa [Node.members, hentries], hname⟩ hnew
    have hall := List.forall_mem_append.mpr ⟨hkeys, checkFields_tells hentries⟩
    dsimp only at h
    split at h
    · cases h
    · cases h
      exact hall

/-! ## Texts that are always shown -/

/-- The texts of a document that a violation shows whatever they are. -/
inductive Rejects (document : Node) : String → Prop
  | id {value : Node} {s : String} (hvalue : document.member? "id" = some value)
      (htext : value.text? = some s) (hfilled : Text.trim s ≠ "")
      (hwrong : RuleId.valid (Text.trim s) = false) : Rejects document (Text.trim s)
  | severity {value : Node} {s : String} (hvalue : document.member? "severity" = some value)
      (htext : value.text? = some s) (hfilled : Text.trim s ≠ "")
      (hwrong : Severity.parse (Text.trim s) = none) : Rejects document (Text.trim s)
  | key {name : String} (hname : document.HasKey name) (hnew : name ∉ fields) : Rejects document name

theorem required_of_text {s : String} (hvalue : Node.valueOf? key entries = some value)
    (htext : value.text? = some s) : required entries key field = .ok value := by
  rw [required, hvalue]
  cases value with
  | null => cases htext
  | _ => rfl

theorem checkText_of_filled {s : String} (htext : value.text? = some s) (hfilled : Text.trim s ≠ "") :
    checkText field value = .ok (Text.trim s) := by
  rw [checkText, htext]
  exact if_neg (by rwa [String.isEmpty_iff])

theorem requiredText_of_filled {check : String → Checked α} {s : String}
    (hvalue : Node.valueOf? key entries = some value) (htext : value.text? = some s)
    (hfilled : Text.trim s ≠ "") :
    (required entries key key >>= fun value => checkText key value >>= check) = check (Text.trim s) := by
  rw [required_of_text hvalue htext]
  show checkText key value >>= check = _
  rw [checkText_of_filled htext hfilled]
  rfl

theorem exists_violation_of_rejects {s : String} (h : Rejects document s) :
    ∃ v ∈ violations document, s.toList <:+: v.field.toList ∨ s.toList <:+: v.kind.message.toList := by
  have hfound {entries : Entries} {name : String} {v : Violation} (hentries : document.entries? = some entries)
      (hname : name ∈ fields) (hv : v ∈ foundIn entries name) : v ∈ violations document := by
    rw [violations_eq hentries]
    exact List.mem_append_right _ (List.mem_flatMap.mpr ⟨name, hname, hv⟩)
  cases h with
  | @id value s hvalue htext hfilled hwrong =>
    obtain ⟨entries, hentries, hvalue⟩ := Option.bind_eq_some_iff.mp hvalue
    have hcheck : checkId entries = .fail "id" (.invalidId (Text.trim s)) := by
      refine (requiredText_of_filled hvalue htext hfilled).trans ?_
      rw [hwrong]
      rfl
    have hv : ⟨"id", .invalidId (Text.trim s)⟩ ∈ foundIn entries "id" := by
      show _ ∈ (checkId entries).violations
      rw [hcheck]
      exact List.mem_singleton_self _
    refine ⟨_, hfound hentries (by decide) hv, .inr ?_⟩
    exact Text.infix_between _ _ _
  | @severity value s hvalue htext hfilled hwrong =>
    obtain ⟨entries, hentries, hvalue⟩ := Option.bind_eq_some_iff.mp hvalue
    have hcheck : checkSeverity entries = .fail "severity" (.invalidChoice (Text.trim s) Severity.names) := by
      refine (requiredText_of_filled hvalue htext hfilled).trans ?_
      rw [hwrong]
    have hv : ⟨"severity", .invalidChoice (Text.trim s) Severity.names⟩ ∈ foundIn entries "severity" := by
      show _ ∈ (checkSeverity entries).violations
      rw [hcheck]
      exact List.mem_singleton_self _
    have hmessage : (ViolationKind.invalidChoice (Text.trim s) Severity.names).message =
        "'" ++ Text.trim s ++ ("' is not one of: " ++ ", ".intercalate Severity.names) := String.append_assoc
    refine ⟨_, hfound hentries (by decide) hv, .inr ?_⟩
    rw [hmessage]
    exact Text.infix_between _ _ _
  | key hname hnew =>
    obtain ⟨entry, hentry, htext⟩ := hname
    cases hentries : document.entries? with
    | none =>
      rw [Node.members, hentries] at hentry
      cases hentry
    | some entries =>
      rw [Node.members, hentries] at hentry
      refine ⟨⟨s, .unknownField fields⟩, ?_, .inl List.infix_rfl⟩
      rw [violations_eq hentries]
      refine List.mem_append_left _ (List.mem_filterMap.mpr ⟨entry.1, List.mem_map_of_mem hentry, ?_⟩)
      rw [keyViolation?, htext]
      exact if_neg hnew

/-- The violations of a text repeat texts of the document, or of the error about what is none. -/
theorem ofYaml_tells {text : String} {violations : List Violation} (h : ofYaml text = .error violations) :
    ∀ v ∈ violations, v.Tells (Yaml.TextEchoes Echoes text) := by
  rw [ofYaml] at h
  cases hparse : Node.parse text with
  | ok document =>
    rw [hparse] at h
    rw [Yaml.textEchoes_of_ok hparse]
    exact validate_tells h
  | error e =>
    rw [hparse] at h
    cases h
    rw [Yaml.textEchoes_of_error hparse]
    refine List.forall_mem_singleton.mpr (tells_of_line (by decide) ?_)
    exact .append (.wording (by decide)) e.isComposed_message

end Card

end Rulebook
