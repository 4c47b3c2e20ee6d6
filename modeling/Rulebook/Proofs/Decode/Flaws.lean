import Rulebook.Package.Basic
import Rulebook.Proofs.Basic

/-!
# What is decoded does not depend on why values are unreadable

A value without a reading can only be skipped, and its flaw only tells where it stands in the text. So a
decoder that comes to a result comes to the same one if these flaws are forgotten.
-/

namespace Rulebook

set_option autoImplicit false

namespace Source

/-- The flaw that stands for all others. -/
def anyFlaw : Json.Flaw := .unplaced .endInValue

mutual

/-- The source without the reasons why values are unreadable. -/
def forget : Source → Source
  | .unreadable _ skipped => .unreadable anyFlaw skipped
  | .list items flaw => .list (forgetItems items) flaw
  | .table members flaw => .table (forgetMembers members) flaw
  | .tagged content => .tagged (forget content)
  | .nothing => .nothing
  | .bool b => .bool b
  | .number n => .number n
  | .limit name => .limit name
  | .text s => .text s

def forgetItems : List Source → List Source
  | [] => []
  | s :: rest => forget s :: forgetItems rest

def forgetMembers : List (Source × Source) → List (Source × Source)
  | [] => []
  | (k, v) :: rest => (forget k, forget v) :: forgetMembers rest

end

theorem forgetItems_eq (items : List Source) : forgetItems items = items.map forget := by
  induction items with
  | nil => rfl
  | cons s rest ih => rw [forgetItems, ih, List.map_cons]

theorem forgetMembers_eq (members : List (Source × Source)) :
    forgetMembers members = members.map fun member => (member.1.forget, member.2.forget) := by
  induction members with
  | nil => rfl
  | cons member rest ih => rw [forgetMembers, ih, List.map_cons]

mutual

theorem flaw?_forget (s : Source) : s.forget.flaw? = s.flaw? := by
  cases s with
  | unreadable | nothing | bool | number | limit | text => rfl
  | list items flaw => rw [forget, flaw?, flaw?, flawIn?_forget items]
  | table members flaw => rw [forget, flaw?, flaw?, flawAmong?_forget members]
  | tagged content => rw [forget, flaw?, flaw?, flaw?_forget content]

theorem flawIn?_forget (items : List Source) : flawIn? (forgetItems items) = flawIn? items := by
  cases items with
  | nil => rfl
  | cons s rest => rw [forgetItems, flawIn?, flawIn?, flaw?_forget s, flawIn?_forget rest]

theorem flawAmong?_forget (members : List (Source × Source)) :
    flawAmong? (forgetMembers members) = flawAmong? members := by
  cases members with
  | nil => rfl
  | cons member rest =>
    obtain ⟨k, v⟩ := member
    rw [forgetMembers, flawAmong?, flawAmong?, flaw?_forget k, flaw?_forget v,
      flawAmong?_forget rest]

end

theorem bare_forget (s : Source) : s.forget.bare = s.bare.forget := by
  induction s using bare.induct with
  | case1 content ih => rw [forget, bare, bare, ih]
  | case2 s hs =>
    cases s with
    | tagged content => exact absurd rfl (hs content)
    | unreadable | nothing | bool | number | limit | text | list | table => rfl

end Source

namespace Decode

variable {α β : Type} {d : Decoder α}

theorem toOption_inside (step : Step) (x : Except Error α) : (inside step x).toOption = x.toOption := by
  cases x <;> rfl

/-- Steps that come to the same results from related items do so in a row. -/
theorem toOption_foldlM {ι κ : Type} {f : β → ι → Except Error β} {g : β → κ → Except Error β}
    {φ : ι → κ} (h : ∀ b x, (g b (φ x)).toOption = (f b x).toOption) (xs : List ι) (b : β) :
    ((xs.map φ).foldlM g b).toOption = (xs.foldlM f b).toOption := by
  induction xs generalizing b with
  | nil => rfl
  | cons x rest ih =>
    rw [List.map_cons, List.foldlM_cons, List.foldlM_cons, Except.toOption_bind,
      Except.toOption_bind, h]
    exact congrArg _ (funext fun b => ih b)

/-- The decoder comes to the same result whatever the flaws of unreadable values are. -/
def Blind (d : Decoder α) : Prop := ∀ s : Source, (d s.forget).toOption = (d s).toOption

theorem blind_text : Blind text := by
  intro s
  rw [text, text, Source.bare_forget]
  cases s.bare <;> rfl

theorem blind_flag : Blind flag := by
  intro s
  rw [flag, flag, Source.bare_forget]
  cases s.bare <;> rfl

theorem toOption_items (h : Blind d) (sources : List Source) (i : Nat) :
    (items d i (sources.map Source.forget)).toOption = (items d i sources).toOption := by
  induction sources generalizing i with
  | nil => rfl
  | cons s rest ih =>
    simp only [List.map_cons, items, Except.toOption_bind, toOption_inside, h s, ih]

theorem blind_list (dialect : Dialect) (h : Blind d) : Blind (list dialect d) := by
  intro s
  rw [list, list, Source.bare_forget]
  cases s.bare with
  | list sources flaw =>
    simp only [Source.forget, Source.forgetItems_eq, Except.toOption_bind, toOption_items h]
  | unreadable | nothing | bool | number | limit | text | table | tagged => rfl

theorem toOption_keyedMember (h : Blind d) (table : Keyed α) (member : Source × Source) :
    (keyedMember d table (member.1.forget, member.2.forget)).toOption =
      (keyedMember d table member).toOption := by
  simp only [keyedMember, Except.toOption_bind, toOption_inside, blind_text member.1, h member.2]

theorem blind_keyed (dialect : Dialect) (h : Blind d) : Blind (keyed dialect d) := by
  intro s
  rw [keyed, keyed, Source.bare_forget]
  cases s.bare with
  | table members flaw =>
    simp only [Source.forget, Source.forgetMembers_eq, Except.toOption_bind,
      toOption_foldlM (toOption_keyedMember h)]
  | unreadable | nothing | bool | number | limit | text | list | tagged => rfl

theorem toOption_keyText (expected other : String) (s : Source) :
    (keyText expected s.forget).toOption = (keyText other s).toOption := by
  rw [keyText, keyText, Source.bare_forget]
  cases s.bare <;> rfl

mutual

theorem blind_json (s : Source) : (json s.forget).toOption = (json s).toOption := by
  cases s with
  | unreadable | nothing | bool | number | limit | text | tagged => rfl
  | list sources flaw =>
    rw [Source.forget, json, json, Except.toOption_bind, Except.toOption_bind,
      toOption_jsonItems sources]
  | table members flaw =>
    rw [Source.forget, json, json, Except.toOption_bind, Except.toOption_bind,
      toOption_jsonMembers "a string key" [] members]

theorem toOption_jsonItems (sources : List Source) :
    (jsonItems (Source.forgetItems sources)).toOption = (jsonItems sources).toOption := by
  cases sources with
  | nil => rfl
  | cons s rest =>
    simp only [Source.forgetItems, jsonItems, Except.toOption_bind, blind_json s,
      toOption_jsonItems rest]

theorem toOption_jsonMembers (expected : String) (table : Keyed Json)
    (members : List (Source × Source)) :
    (jsonMembers expected table (Source.forgetMembers members)).toOption =
      (jsonMembers expected table members).toOption := by
  cases members with
  | nil => rfl
  | cons member rest =>
    obtain ⟨k, v⟩ := member
    simp only [Source.forgetMembers, jsonMembers, Except.toOption_bind,
      toOption_keyText expected expected k, blind_json v, fun key value =>
        toOption_jsonMembers "a string" (Keyed.insert key value table) rest]

end

theorem blind_alternative (allowed : List String) (parse : String → Option α) :
    Blind (alternative .jsonText allowed parse) := by
  intro s
  rw [alternative, alternative, Source.bare_forget]
  cases s.bare with
  | unreadable | nothing | bool | number | limit | text | list | tagged => rfl
  | table members flaw =>
    cases members with
    | nil => rfl
    | cons member rest =>
      obtain ⟨k, v⟩ := member
      simp only [Source.forget, Source.forgetMembers, Dialect.jsonText, Except.toOption_bind,
        toOption_keyText "variant identifier" "variant identifier" k]
      have hempty : (Source.forgetMembers rest).isEmpty = rest.isEmpty := by cases rest <;> rfl
      rw [hempty]
      cases v <;> rfl

namespace Layout

variable {layout : Layout α} {dialect : Dialect}

theorem toOption_step (h : ∀ value name, Blind (layout.put value name))
    (progress : α × List String) (member : Source × Source) :
    (layout.step progress (member.1.forget, member.2.forget)).toOption =
      (layout.step progress member).toOption := by
  simp only [step, Except.toOption_bind,
    toOption_keyText "field identifier" "field identifier" member.1]
  refine congrArg _ (funext fun name => ?_)
  split
  · split
    · rfl
    · simp only [Except.toOption_bind, toOption_inside, h progress.1 name member.2]
  · split
    · rfl
    · rw [Source.flaw?_forget]

theorem blind_decode (h : ∀ value name, Blind (layout.put value name)) :
    Blind (layout.decode dialect) := by
  have hmembers (members : List (Source × Source)) (flaw : Option Json.Flaw) :
      (layout.ofMembers (Source.forgetMembers members) flaw).toOption =
        (layout.ofMembers members flaw).toOption := by
    simp only [ofMembers, Source.forgetMembers_eq, Except.toOption_bind,
      toOption_foldlM (toOption_step h)]
  have hitems (items : List Source) (flaw : Option Json.Flaw) :
      (layout.ofItems dialect (Source.forgetItems items) flaw).toOption =
        (layout.ofItems dialect items flaw).toOption := by
    have hput (value : α) (x : (String × Source) × Nat) :
        (inside (.item x.2) (layout.put value x.1.1 x.1.2.forget)).toOption =
          (inside (.item x.2) (layout.put value x.1.1 x.1.2)).toOption := by
      rw [toOption_inside, toOption_inside, h value x.1.1 x.1.2]
    simp only [ofItems, Source.forgetItems_eq, List.length_map, List.zip_map_right,
      List.zipIdx_map, Except.toOption_bind]
    rw [toOption_foldlM hput]
  intro s
  rw [decode, decode, Source.bare_forget]
  cases s.bare with
  | table members flaw => exact hmembers members flaw
  | list items flaw =>
    simp only [Source.forget]
    split
    · exact hitems items flaw
    · rfl
  | unreadable | nothing | bool | number | limit | text | tagged => rfl

end Layout

end Decode

open Decode

theorem Policy.blind_decode : Blind (decode .jsonText) := by
  refine Layout.blind_decode fun policy name s => ?_
  unfold layout
  dsimp only
  split
  · simp only [Except.toOption_bind, blind_list _ blind_text s]
  · simp only [Except.toOption_bind, blind_keyed _ blind_json s]
  · rfl

namespace Card

theorem blind_verify : Blind ((verifyLayout .jsonText).decode .jsonText) := by
  refine Layout.blind_decode fun tests name s => ?_
  unfold verifyLayout
  dsimp only
  split
  · exact blind_list _ blind_text s
  · rfl

theorem blind_decode : Blind (decode .jsonText) := by
  refine Layout.blind_decode fun card name s => ?_
  unfold layout
  dsimp only
  split <;> first
    | rfl
    | simp only [Except.toOption_bind, blind_text s, blind_flag s, blind_list _ blind_text s,
        blind_verify s, blind_keyed _ (blind_list _ blind_text) s, blind_keyed _ blind_json s,
        blind_alternative Severity.names Severity.parse s]

end Card

theorem Package.blind_decode : Blind (decode .jsonText) := by
  refine Layout.blind_decode fun p name s => ?_
  unfold layout
  dsimp only
  split <;> first
    | rfl
    | simp only [Except.toOption_bind, blind_text s, Policy.blind_decode s, blind_list _ blind_text s,
        blind_list _ Card.blind_decode s, blind_keyed _ (blind_list _ blind_text) s]

end Rulebook
