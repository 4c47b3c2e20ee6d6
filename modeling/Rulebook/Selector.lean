import Rulebook.Card.Basic
import Rulebook.Decode.Record
import Rulebook.Glob
import Rulebook.Text.Blank
import Rulebook.Text.Quoted

/-!
# Selectors

A selector picks the cards that at least one of its matchers picks, by scope, by the start of the
scope, by a pattern for the scope, or by category.
-/

namespace Rulebook

set_option autoImplicit false

/-- A selector as it is written. -/
structure SelectorSpec where
  scopes : List String
  scopeStarts : List String
  scopeGlobs : List String
  categories : List String
deriving DecidableEq, Inhabited

inductive Matcher where
  | scopeIs (scope : String)
  | scopeStartsWith (start : String)
  | scopeLike (pattern : Glob)
  | categoryIs (category : String)
deriving DecidableEq

namespace Matcher

def accepts (card : Card) : Matcher → Bool
  | .scopeIs scope => card.scope == scope
  | .scopeStartsWith start => start.toList.isPrefixOf card.scope.toList
  | .scopeLike pattern => pattern.accepts card.scope
  | .categoryIs category => card.category == category

def text : Matcher → String
  | .scopeIs scope => "scope == " ++ Text.quoted scope
  | .scopeStartsWith start => "scope starts with " ++ Text.quoted start
  | .scopeLike pattern => "scope ~ " ++ Text.quoted pattern.text
  | .categoryIs category => "category == " ++ Text.quoted category

end Matcher

structure Selector where
  matchers : List Matcher
deriving DecidableEq

namespace Selector

def accepts (selector : Selector) (card : Card) : Bool := selector.matchers.any (·.accepts card)

def text (selector : Selector) : String := " || ".intercalate (selector.matchers.map (·.text))

/-- What is wrong with a field of a selector. -/
structure Problem where
  field : String
  message : String
deriving DecidableEq

def itemName (field : String) (i : Nat) : String := field ++ "[" ++ toString i ++ "]"

/-- The values with their places, without the blanks around them. -/
def numbered (values : List String) : List (String × Nat) := (values.map Text.trim).zipIdx

def blankProblems (field : String) (values : List String) : List Problem :=
  (numbered values).filterMap fun (value, i) =>
    if value.isEmpty then some ⟨itemName field i, "must not be empty"⟩ else none

def filled (values : List String) : List (String × Nat) := (numbered values).filter (!·.1.isEmpty)

def exactMatchers (build : String → Matcher) (values : List String) : List Matcher :=
  (filled values).map fun (value, _) => build value

def badGlob (text : String) (e : Glob.Error) : String :=
  "invalid glob '" ++ text ++ "': " ++ e.message

def globProblems (values : List String) : List Problem :=
  (filled values).filterMap fun (value, i) =>
    match Glob.parse value with
    | .ok _ => none
    | .error e => some ⟨itemName "scope_globs" i, badGlob value e⟩

def globMatchers (values : List String) : List Matcher :=
  (filled values).filterMap fun (value, _) =>
    match Glob.parse value with
    | .ok pattern => some (.scopeLike pattern)
    | .error _ => none

def matchersOf (spec : SelectorSpec) : List Matcher :=
  exactMatchers .scopeIs spec.scopes ++ exactMatchers .scopeStartsWith spec.scopeStarts ++
    globMatchers spec.scopeGlobs ++ exactMatchers .categoryIs spec.categories

def entryProblems (spec : SelectorSpec) : List Problem :=
  blankProblems "scopes" spec.scopes ++ blankProblems "scope_prefixes" spec.scopeStarts ++
    blankProblems "scope_globs" spec.scopeGlobs ++ globProblems spec.scopeGlobs ++
    blankProblems "categories" spec.categories

def noMatchers : Problem :=
  ⟨"rule_selector",
    "selector has no matchers; add scopes, scope_prefixes, scope_globs, or categories"⟩

def problems (spec : SelectorSpec) : List Problem :=
  let wrong := entryProblems spec
  if wrong.isEmpty && (matchersOf spec).isEmpty then [noMatchers] else wrong

def compile (spec : SelectorSpec) : Except (List Problem) Selector :=
  let wrong := problems spec
  if wrong.isEmpty then .ok ⟨matchersOf spec⟩ else .error wrong

end Selector

namespace SelectorSpec

open Decode

def layout (dialect : Dialect) : Layout SelectorSpec where
  name := "struct SelectorSpec"
  fields := ["scopes", "scope_prefixes", "scope_globs", "categories"]
  optional := ["scopes", "scope_prefixes", "scope_globs", "categories"]
  strict := true
  blank := default
  put spec name value :=
    match name with
    | "scopes" => return { spec with scopes := ← list dialect text value }
    | "scope_prefixes" => return { spec with scopeStarts := ← list dialect text value }
    | "scope_globs" => return { spec with scopeGlobs := ← list dialect text value }
    | "categories" => return { spec with categories := ← list dialect text value }
    | _ => return spec

def decode (dialect : Dialect) : Decoder SelectorSpec := (layout dialect).decode dialect

end SelectorSpec

end Rulebook
