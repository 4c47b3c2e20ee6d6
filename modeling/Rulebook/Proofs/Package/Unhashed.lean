import Rulebook.Proofs.Decode.Unknown
import Rulebook.Proofs.Json.Pieces
import Rulebook.Proofs.Package.Text
import Rulebook.Proofs.Package.Verify

/-!
# Members that no digest covers

Verification looks at what was decoded. A package and its policy are strict: a member of an unknown
name keeps the text from being read. A card and its section on verification are not: whatever is added
to them is skipped, so that the same package is read and found to be in order.
-/

namespace Rulebook

set_option autoImplicit false

open Decode

namespace Json.Tree

variable {α : Type} {layout : Layout α} {dialect : Dialect} {r : Tree → Tree → Prop} {t t' : Tree}
  {fields : List String} {name : String}

/-- One more member, of a name that is none of the fields. -/
inductive Adds (fields : List String) : Tree → Tree → Prop where
  | member {before after : List (List Char × Tree)} {token : List Char} {value : Tree} {name : String}
      (hname : tokenSource token = .text name) (hnew : name ∉ fields) :
      Adds fields (.table (before ++ after)) (.table (before ++ (token, value) :: after))

/-- A change to the value of a field, in a record that is given by its members or by its items. -/
inductive AtField (fields : List String) (name : String) (r : Tree → Tree → Prop) :
    Tree → Tree → Prop where
  | member {before after : List (List Char × Tree)} {token : List Char} {t t' : Tree}
      (hname : tokenSource token = .text name) (h : r t t') :
      AtField fields name r (.table (before ++ (token, t) :: after))
        (.table (before ++ (token, t') :: after))
  | item {before after : List Tree} {t t' : Tree} (hplace : fields[before.length]? = some name)
      (h : r t t') :
      AtField fields name r (.list (before ++ t :: after)) (.list (before ++ t' :: after))

/-- A change to one item of a list. -/
inductive AtItem (r : Tree → Tree → Prop) : Tree → Tree → Prop where
  | item {before after : List Tree} {t t' : Tree} (h : r t t') :
      AtItem r (.list (before ++ t :: after)) (.list (before ++ t' :: after))

/-! ## Sources -/

theorem sources_append (depth : Nat) (before after : List Tree) :
    sources depth (before ++ after) = sources depth before ++ sources depth after := by
  induction before with
  | nil => rfl
  | cons t rest ih => rw [List.cons_append, sources, sources, ih, List.cons_append]

theorem length_sources (depth : Nat) (items : List Tree) :
    (sources depth items).length = items.length := by
  induction items with
  | nil => rfl
  | cons t rest ih => rw [sources, List.length_cons, List.length_cons, ih]

theorem memberSources_append (depth : Nat) (before after : List (List Char × Tree)) :
    memberSources depth (before ++ after) =
      memberSources depth before ++ memberSources depth after := by
  induction before with
  | nil => rfl
  | cons member rest ih =>
    rw [List.cons_append, memberSources, memberSources, ih, List.cons_append]

theorem areSound_append {before after : List Tree} :
    AreSound (before ++ after) ↔ AreSound before ∧ AreSound after := by
  induction before with
  | nil => simp [AreSound]
  | cons t rest ih => simp [AreSound, ih, and_assoc]

theorem membersSound_append {before after : List (List Char × Tree)} :
    MembersSound (before ++ after) ↔ MembersSound before ∧ MembersSound after := by
  induction before with
  | nil => simp [MembersSound]
  | cons member rest ih => simp [MembersSound, ih, and_assoc]

/-! ## What is decoded after a change -/

/-- Nothing is decoded from what lies too deep. -/
theorem decode_within {d : Decoder α} {s s' : Source} (h : d s = d s') (depth : Nat) :
    d (within depth s) = d (within depth s') := by
  rw [within, within]
  split
  · exact h
  · rfl

theorem decode_within_error {depth : Nat} {s : Source} (h : ∃ e, layout.decode dialect s = .error e) :
    ∃ e, layout.decode dialect (within depth s) = .error e := by
  rw [within]
  split
  · exact h
  · exact ⟨_, rfl⟩

theorem decode_adds (hloose : layout.strict = false) (h : Adds layout.fields t t') (ht' : t'.IsSound)
    (depth : Nat) :
    layout.decode dialect (t'.source depth) = layout.decode dialect (t.source depth) := by
  cases h with
  | member hname hnew =>
    have hvalue := (membersSound_append.mp ht').2.2.1
    refine decode_within ?_ _
    rw [memberSources_append, memberSources_append, memberSources, hname]
    exact Layout.decode_loose hloose hnew (flaw?_source _ _ hvalue) none

theorem decode_adds_error (hstrict : layout.strict = true) (h : Adds layout.fields t t') (depth : Nat) :
    ∃ e, layout.decode dialect (t'.source depth) = .error e := by
  cases h with
  | member hname hnew =>
    refine decode_within_error ?_
    rw [memberSources_append, memberSources, hname]
    exact Layout.decode_strict hstrict hnew none

theorem decode_atField (hfield : name ∈ layout.fields)
    (hr : ∀ t t', r t t' → t'.IsSound → ∀ depth value,
      layout.put value name (t'.source depth) = layout.put value name (t.source depth))
    (h : AtField layout.fields name r t t') (ht' : t'.IsSound) (depth : Nat) :
    layout.decode dialect (t'.source depth) = layout.decode dialect (t.source depth) := by
  cases h with
  | member hname h =>
    have hvalue := (membersSound_append.mp ht').2.2.1
    refine decode_within ?_ _
    rw [memberSources_append, memberSources_append, memberSources, memberSources, hname]
    exact Layout.decode_same_member hfield (hr _ _ h hvalue _) none
  | item hplace h =>
    have hvalue := (areSound_append.mp ht').2.1
    refine decode_within ?_ _
    rw [sources_append, sources_append, sources, sources]
    exact Layout.decode_same_item (by rw [length_sources]; exact hplace) (hr _ _ h hvalue _) none

theorem decode_atField_error (hfield : name ∈ layout.fields)
    (hr : ∀ t t', r t t' → ∀ depth value, ∃ e, layout.put value name (t'.source depth) = .error e)
    (h : AtField layout.fields name r t t') (depth : Nat) :
    ∃ e, layout.decode dialect (t'.source depth) = .error e := by
  cases h with
  | member hname h =>
    refine decode_within_error ?_
    rw [memberSources_append, memberSources, hname]
    exact Layout.decode_stuck_member hfield (hr _ _ h _) none
  | item hplace h =>
    refine decode_within_error ?_
    rw [sources_append, sources]
    exact Layout.decode_stuck_item (by rw [length_sources]; exact hplace) (hr _ _ h _) none

theorem list_atItem {d : Decoder α}
    (hr : ∀ t t', r t t' → t'.IsSound → ∀ depth, d (t'.source depth) = d (t.source depth))
    (h : AtItem r t t') (ht' : t'.IsSound) (depth : Nat) :
    Decode.list dialect d (t'.source depth) = Decode.list dialect d (t.source depth) := by
  cases h with
  | item h =>
    have hvalue := (areSound_append.mp ht').2.1
    refine decode_within ?_ _
    rw [sources_append, sources_append, sources, sources]
    exact list_same dialect (hr _ _ h hvalue _) _ _ none

end Json.Tree

/-! ## Cards and packages -/

open Json (Form Tree)

/-- One more member in a card or in its section on verification. -/
def Card.Adds (t t' : Tree) : Prop :=
  Tree.Adds fields t t' ∨ Tree.AtField fields "verify" (Tree.Adds verifyFields) t t'

theorem Card.decode_adds {t t' : Tree} (h : Card.Adds t t') (ht' : t'.IsSound) (depth : Nat) :
    decode .jsonText (t'.source depth) = decode .jsonText (t.source depth) := by
  rcases h with h | h
  · exact Tree.decode_adds rfl h ht' depth
  · -- what the decoder of the section does not see, that of the card does not see either
    refine Tree.decode_atField (by decide) (fun t t' h ht' depth value => ?_) h ht' depth
    have hverify : (verifyLayout .jsonText).decode .jsonText (t'.source depth) =
        (verifyLayout .jsonText).decode .jsonText (t.source depth) := Tree.decode_adds rfl h ht' depth
    simp only [layout, hverify]

namespace Package

/-- One more member in one of the cards. -/
def AddsToCard (t t' : Tree) : Prop :=
  Tree.AtField fields "rules_detail" (Tree.AtItem Card.Adds) t t'

/-- One more member in the package itself or in its policy. -/
def AddsOutside (t t' : Tree) : Prop :=
  Tree.Adds fields t t' ∨
    Tree.AtField fields "policy" (Tree.Adds (Policy.layout .jsonText).fields) t t'

variable {t t' : Tree}

theorem decode_addsToCard (h : AddsToCard t t') (ht' : t'.IsSound) :
    decode .jsonText (t'.source 0) = decode .jsonText (t.source 0) := by
  have hdetail : Tree.AtField (layout .jsonText).fields "rules_detail" (Tree.AtItem Card.Adds) t t' := h
  refine Tree.decode_atField (by decide) (fun t t' h ht' depth value => ?_) hdetail ht' 0
  have hcards : list .jsonText (Card.decode .jsonText) (t'.source depth) =
      list .jsonText (Card.decode .jsonText) (t.source depth) :=
    Tree.list_atItem (fun t t' h ht' depth => Card.decode_adds h ht' depth) h ht' depth
  simp only [layout, hcards]

theorem decode_addsOutside (h : AddsOutside t t') :
    ∃ e, decode .jsonText (t'.source 0) = .error e := by
  rcases h with h | h
  · exact Tree.decode_adds_error rfl h 0
  · refine Tree.decode_atField_error (by decide) (fun t t' h depth value => ?_) h 0
    obtain ⟨e, he⟩ : ∃ e, Policy.decode .jsonText (t'.source depth) = .error e :=
      Tree.decode_adds_error rfl h depth
    exact ⟨e, by simp only [layout, he]; rfl⟩

/-- A text is read as its tree is decoded. -/
theorem toOption_parse {f : Form} (hf : f.IsSound) :
    (parse f.text).toOption = (decode .jsonText (f.tree.source 0)).toOption := by
  obtain ⟨hflaw, hsource⟩ := Form.read_text hf
  have hend (p : Package) : endOf none p = .ok p := rfl
  rw [parse, hflaw, ← hsource, blind_decode, Except.toOption_bind]
  simp only [hend]
  cases decode .jsonText (Json.read f.text).source <;> rfl

theorem toOption_read (text : String) : (read text).toOption = (parse text).toOption := by
  rw [read]
  cases parse text <;> rfl

theorem flaw_of_parse {text : String} {p : Package} (h : parse text = .ok p) :
    (Json.read text).flaw = none := by
  obtain ⟨q, -, hend⟩ := Except.bind_ok h
  cases hflaw : (Json.read text).flaw with
  | none => rfl
  | some flaw =>
    rw [hflaw] at hend
    cases hend

/-- The texts say the same but for a change. -/
def Differ (r : Tree → Tree → Prop) (text text' : String) : Prop :=
  ∃ f f' : Form, f.IsSound ∧ f'.IsSound ∧ f.text = text ∧ f'.text = text' ∧ r f.tree f'.tree

/-- The text is read as a package in which nothing is found. -/
def IsAccepted (text : String) : Prop := ∃ p, read text = .ok p ∧ p.verify none = []

/-- Every accepted text has pieces, so that members can be added to it. What is added to a card or to its
section on verification goes unnoticed: the text is still accepted, as the same package. What is added to
the package or to its policy is refused. -/
theorem unhashed_members {text : String} (h : IsAccepted text) :
    (∃ f : Form, f.IsSound ∧ f.text = text) ∧
    ∀ text',
      (Differ AddsToCard text text' → IsAccepted text' ∧ read text' = read text) ∧
      (Differ AddsOutside text text' → ∃ fault, read text' = .error fault) := by
  obtain ⟨p, hread, hclean⟩ := h
  have hparse : (parse text).toOption = some p := by
    rw [← toOption_read, hread]
    rfl
  have hpieces : ∃ f : Form, f.IsSound ∧ f.text = text :=
    Form.exists_of_read (flaw_of_parse (Except.toOption_eq_some_iff.mp hparse))
  refine ⟨hpieces, fun text' => ⟨?_, ?_⟩⟩
  · rintro ⟨f, f', hf, hf', rfl, rfl, hadds⟩
    have hread' : read f'.text = .ok p := by
      rw [← Except.toOption_eq_some_iff, toOption_read, toOption_parse hf',
        decode_addsToCard hadds (Form.isSound_tree f' hf'), ← toOption_parse hf, hparse]
    exact ⟨⟨p, hread', hclean⟩, hread'.trans hread.symm⟩
  · rintro ⟨f, f', hf, hf', rfl, rfl, hadds⟩
    obtain ⟨e, he⟩ := decode_addsOutside hadds
    have hnone : (read f'.text).toOption = none := by
      rw [toOption_read, toOption_parse hf', he]
      rfl
    cases hread' : read f'.text with
    | ok q =>
      rw [hread'] at hnone
      cases hnone
    | error fault => exact ⟨fault, rfl⟩

/-! ## A note -/

/-- A card with little in it. -/
def bareCard : Card := ⟨"R", "", .low, "", "", [], [], [], [], [], false, []⟩

def barePackage : Package :=
  ⟨"a", "", "", "", Rulebook.sourceDigest [("R", bareCard.contentHash)], "", ⟨[], []⟩, ["R"],
    [bareCard], []⟩

theorem verify_barePackage : barePackage.verify none = [] :=
  verify_none_eq_nil_iff.mpr ⟨by decide, rfl, by decide, rfl, rfl⟩

theorem isOrdered_barePackage : barePackage.IsOrdered := by
  have hcard : bareCard.IsOrdered := ⟨.nil, .nil, .nil, by simp [bareCard]⟩
  refine ⟨⟨.nil, by simp [barePackage]⟩, fun card hmem => ?_, .nil⟩
  exact List.mem_singleton.mp hmem ▸ hcard

def quoted (s : String) : Form := .token (Json.written s)

def named (s : String) : Json.Name := ⟨[], Json.written s, []⟩

def note : Json.Name × Form := (named "note", quoted "approved")

def cardMembers : List (Json.Name × Form) :=
  [(named "id", quoted "R"), (named "title", quoted ""), (named "severity", quoted "low"),
    (named "scope", quoted ""), (named "requirement", quoted ""), (named "do", .list [] []),
    (named "dont", .list [] []), (named "detect", .table [] []),
    (named "verify", .table [] [(named "tests", .list [] [])]), (named "refs", .table [] [])]

def headMembers : List (Json.Name × Form) :=
  [(named "id", quoted "a"), (named "name", quoted ""), (named "version", quoted ""),
    (named "build_date", quoted ""), (named "source_digest", quoted barePackage.sourceDigest),
    (named "attribution", quoted ""),
    (named "policy", .table [] [(named "targets", .list [] []), (named "defaults", .table [] [])]),
    (named "rules", .list [] [quoted "R"])]

def packageMembers (inCard : List (Json.Name × Form)) : List (Json.Name × Form) :=
  headMembers ++ [(named "rules_detail", .list [] [.table [] (cardMembers ++ inCard)]),
    (named "validation_hooks", .table [] [])]

/-- The text of the package, without blanks, with more members in its card and in itself. -/
def packageForm (inCard inPackage : List (Json.Name × Form)) : Form :=
  .table [] (packageMembers inCard ++ inPackage)

theorem isSound_packageForm {inCard inPackage : List (Json.Name × Form)}
    (hcard : Form.MembersSound inCard) (hpackage : Form.MembersSound inPackage) :
    (packageForm inCard inPackage).IsSound := by
  have hname (s : String) : (named s).IsSound :=
    ⟨by simp [named], (Json.token_written s).1, rfl, by simp [named]⟩
  have hquoted (s : String) : (quoted s).IsSound := (Json.token_written s).1
  simp [packageForm, packageMembers, headMembers, cardMembers, Form.IsSound, Form.MembersSound,
    Form.AreSound, hname, hquoted, hcard, hpackage]

theorem membersSound_note : Form.MembersSound [note] :=
  ⟨⟨by simp [named], (Json.token_written _).1, rfl, by simp [named]⟩,
    (Json.token_written _).1, trivial⟩

theorem source_packageForm :
    (packageForm [] []).tree.source 0 = .ofJson barePackage.toJson := by
  have hname (s : String) : Json.tokenSource (named s).token = .text s := (Json.token_written s).2
  have hquoted (s : String) (depth : Nat) : (quoted s).tree.source depth = .text s :=
    (Json.token_written s).2
  simp only [packageForm, packageMembers, headMembers, cardMembers, List.append_nil, List.cons_append,
    List.nil_append, Form.tree, Form.trees, Form.memberTrees, Tree.source, Tree.sources,
    Tree.memberSources, hname, hquoted]
  rfl

theorem read_packageForm : read (packageForm [] []).text = .ok barePackage := by
  have hsound := @isSound_packageForm [] [] trivial trivial
  rw [← Except.toOption_eq_some_iff, toOption_read, toOption_parse hsound, source_packageForm,
    decode_toJson .jsonText isOrdered_barePackage]
  rfl

theorem unhashed_members_note :
    IsAccepted (packageForm [] []).text ∧
      (IsAccepted (packageForm [note] []).text ∧
        read (packageForm [note] []).text = read (packageForm [] []).text) ∧
      ∃ fault, read (packageForm [] [note]).text = .error fault := by
  have hsound := @isSound_packageForm [] [] trivial trivial
  have haccepted : IsAccepted (packageForm [] []).text :=
    ⟨barePackage, read_packageForm, verify_barePackage⟩
  have hcard : Differ AddsToCard (packageForm [] []).text (packageForm [note] []).text := by
    have hadds : Card.Adds (Form.table [] cardMembers).tree
        (Form.table [] (cardMembers ++ [note])).tree :=
      .inl (@Tree.Adds.member Card.fields (Form.memberTrees cardMembers) [] _ _ "note"
        (Json.token_written _).2 (by decide))
    exact ⟨_, _, hsound, @isSound_packageForm [note] [] membersSound_note trivial, rfl, rfl,
      @Tree.AtField.member fields "rules_detail" _ (Form.memberTrees headMembers) _ _ _ _
        (Json.token_written _).2 (@Tree.AtItem.item _ [] [] _ _ hadds)⟩
  have hpackage : Differ AddsOutside (packageForm [] []).text (packageForm [] [note]).text :=
    ⟨_, _, hsound, @isSound_packageForm [] [note] trivial membersSound_note, rfl, rfl,
      .inl (@Tree.Adds.member fields (Form.memberTrees (packageMembers [])) [] _ _ "note"
        (Json.token_written _).2 (by decide))⟩
  have hadded := (unhashed_members haccepted).2
  exact ⟨haccepted, (hadded _).1 hcard, (hadded _).2 hpackage⟩

end Package

end Rulebook
