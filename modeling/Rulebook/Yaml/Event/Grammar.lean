import Rulebook.Yaml.Event
import Rulebook.Yaml.Token

/-!
# From tokens to events

`Stream.ofTokens` reads the events of the first document. The grammar is a machine that knows what
it expects next and what it expects after that; each step reads some tokens and gives one event.
-/

namespace Rulebook.Yaml

set_option autoImplicit false

/-- What the grammar expects next. -/
inductive Expected where
  | blockNode
  | documentContent
  | documentEnd
  | blockEntry
  | indentlessEntry
  | blockKey
  | blockValue
  | flowEntry (first : Bool)
  | pairKey
  | pairValue
  | pairEnd
  | flowKey (first : Bool)
  | flowValue
  | flowEmptyValue
deriving DecidableEq

structure Machine where
  tokens : List Token
  expected : Expected
  /-- What is expected after that, innermost first. -/
  after : List Expected
  /-- Tag handles and what they stand for. -/
  handles : List (String × String)

/-- What one step gives. -/
inductive Step where
  | event (e : Event) (next : Machine)
  /-- The document is over; these tokens follow it. -/
  | finished (rest : List Token)
  | failed

namespace Machine

/-- Goes on with what is expected after the present node. -/
def pop (m : Machine) : Machine :=
  match m.after with
  | e :: rest => { m with expected := e, after := rest }
  | [] => { m with expected := .documentEnd }

def emit (m : Machine) (e : Event) : Step := .event e m

/-- The expansion of a tag. -/
def resolveTag (m : Machine) (handle suffix : String) : Option String :=
  if handle.isEmpty then some suffix
  else (m.handles.find? (·.1 == handle)).map (·.2 ++ suffix)

/-- The anchor and tag in front of a node, and the tokens after them; fails on an unknown handle. -/
def properties (m : Machine) : Option (Option String × Option String × List Token) :=
  match m.tokens with
  | .anchor name :: .tag handle suffix :: rest =>
    (m.resolveTag handle suffix).map fun tag => (some name, some tag, rest)
  | .anchor name :: rest => some (some name, none, rest)
  | .tag handle suffix :: .anchor name :: rest =>
    (m.resolveTag handle suffix).map fun tag => (some name, some tag, rest)
  | .tag handle suffix :: rest =>
    (m.resolveTag handle suffix).map fun tag => (none, some tag, rest)
  | rest => some (none, none, rest)

/-- The token after the properties must be known, for it decides what they belong to. -/
def node (m : Machine) (block indentless : Bool) : Step :=
  match m.tokens with
  | .alias name :: rest => { m with tokens := rest }.pop.emit (.alias name)
  | _ =>
    match m.properties with
    | none => .failed
    | some (anchor, tag, tokens) =>
      let m := { m with tokens }
      match tokens with
      | [] => .failed
      | .blockEntry :: rest =>
        if indentless then
          { m with expected := .indentlessEntry }.emit (.sequenceStart anchor tag)
        else bare m anchor tag (.blockEntry :: rest)
      | .scalar text plain :: rest =>
        let tag := if tag == some "!" then none else tag
        { m with tokens := rest }.pop.emit (.scalar anchor tag text plain)
      | .flowSequenceStart :: rest =>
        { m with tokens := rest, expected := .flowEntry true }.emit (.sequenceStart anchor tag)
      | .flowMappingStart :: rest =>
        { m with tokens := rest, expected := .flowKey true }.emit (.mappingStart anchor tag)
      | .blockSequenceStart :: rest =>
        if block then
          { m with tokens := rest, expected := .blockEntry }.emit (.sequenceStart anchor tag)
        else bare m anchor tag (.blockSequenceStart :: rest)
      | .blockMappingStart :: rest =>
        if block then
          { m with tokens := rest, expected := .blockKey }.emit (.mappingStart anchor tag)
        else bare m anchor tag (.blockMappingStart :: rest)
      | tokens => bare m anchor tag tokens
where
  bare (m : Machine) (anchor tag : Option String) (tokens : List Token) : Step :=
    if anchor.isSome || tag.isSome then { m with tokens }.pop.emit (.empty anchor tag)
    else .failed

/-- A node, after which something else is expected. -/
def nodeThen (m : Machine) (tokens : List Token) (following : Expected) (block indentless : Bool) :
    Step :=
  { m with tokens, after := following :: m.after }.node block indentless

/-- A node that is left out. -/
def omitted (m : Machine) (tokens : List Token) (next : Expected) : Step :=
  { m with tokens, expected := next }.emit (.empty none none)

def stepBlockEntry (m : Machine) : Step :=
  match m.tokens with
  | .blockEntry :: rest =>
    match rest with
    | [] => .failed
    | .blockEntry :: _ | .blockEnd :: _ => m.omitted rest .blockEntry
    | _ => m.nodeThen rest .blockEntry true false
  | .blockEnd :: rest => { m with tokens := rest }.pop.emit .sequenceEnd
  | _ => .failed

def stepIndentlessEntry (m : Machine) : Step :=
  match m.tokens with
  | [] => .failed
  | .blockEntry :: rest =>
    match rest with
    | [] => .failed
    | .blockEntry :: _ | .key :: _ | .value :: _ | .blockEnd :: _ =>
      m.omitted rest .indentlessEntry
    | _ => m.nodeThen rest .indentlessEntry true false
  | _ => m.pop.emit .sequenceEnd

def stepBlockKey (m : Machine) : Step :=
  match m.tokens with
  | .key :: rest =>
    match rest with
    | [] => .failed
    | .key :: _ | .value :: _ | .blockEnd :: _ => m.omitted rest .blockValue
    | _ => m.nodeThen rest .blockValue true true
  | .blockEnd :: rest => { m with tokens := rest }.pop.emit .mappingEnd
  | _ => .failed

def stepBlockValue (m : Machine) : Step :=
  match m.tokens with
  | [] => .failed
  | .value :: rest =>
    match rest with
    | [] => .failed
    | .key :: _ | .value :: _ | .blockEnd :: _ => m.omitted rest .blockKey
    | _ => m.nodeThen rest .blockKey true true
  | rest => m.omitted rest .blockKey

def stepFlowEntry (m : Machine) (first : Bool) : Step :=
  let entry (tokens : List Token) : Step :=
    match tokens with
    | [] => .failed
    | .key :: rest =>
      { m with tokens := rest, expected := .pairKey }.emit (.mappingStart none none)
    | .flowSequenceEnd :: rest => { m with tokens := rest }.pop.emit .sequenceEnd
    | tokens => m.nodeThen tokens (.flowEntry false) false false
  match m.tokens with
  | .flowSequenceEnd :: rest => { m with tokens := rest }.pop.emit .sequenceEnd
  | .flowEntry :: rest => entry (if first then m.tokens else rest)
  | tokens => if first then entry tokens else .failed

/-- A pair whose key is left out takes the token that shows it with it. -/
def stepPairKey (m : Machine) : Step :=
  match m.tokens with
  | [] => .failed
  | .value :: rest | .flowEntry :: rest | .flowSequenceEnd :: rest => m.omitted rest .pairValue
  | tokens => m.nodeThen tokens .pairValue false false

def stepPairValue (m : Machine) : Step :=
  match m.tokens with
  | [] => .failed
  | .value :: rest =>
    match rest with
    | [] => .failed
    | .flowEntry :: _ | .flowSequenceEnd :: _ => m.omitted rest .pairEnd
    | _ => m.nodeThen rest .pairEnd false false
  | tokens => m.omitted tokens .pairEnd

def stepFlowKey (m : Machine) (first : Bool) : Step :=
  let entry (tokens : List Token) : Step :=
    match tokens with
    | [] => .failed
    | .key :: rest =>
      match rest with
      | [] => .failed
      | .value :: _ | .flowEntry :: _ | .flowMappingEnd :: _ => m.omitted rest .flowValue
      | _ => m.nodeThen rest .flowValue false false
    | .flowMappingEnd :: rest => { m with tokens := rest }.pop.emit .mappingEnd
    | tokens => m.nodeThen tokens .flowEmptyValue false false
  match m.tokens with
  | .flowMappingEnd :: rest => { m with tokens := rest }.pop.emit .mappingEnd
  | .flowEntry :: rest => entry (if first then m.tokens else rest)
  | tokens => if first then entry tokens else .failed

def stepFlowValue (m : Machine) : Step :=
  match m.tokens with
  | [] => .failed
  | .value :: rest =>
    match rest with
    | [] => .failed
    | .flowEntry :: _ | .flowMappingEnd :: _ => m.omitted rest (.flowKey false)
    | _ => m.nodeThen rest (.flowKey false) false false
  | tokens => m.omitted tokens (.flowKey false)

def step (m : Machine) : Step :=
  match m.expected with
  | .blockNode => m.node true false
  | .documentContent =>
    match m.tokens with
    | [] => .failed
    | .versionDirective .. :: _ | .tagDirective .. :: _ | .documentStart :: _ | .documentEnd :: _
    | .streamEnd :: _ => m.pop.emit (.empty none none)
    | _ => m.node true false
  | .documentEnd =>
    match m.tokens with
    | [] => .failed
    | .documentEnd :: rest => .finished rest
    | tokens => .finished tokens
  | .blockEntry => m.stepBlockEntry
  | .indentlessEntry => m.stepIndentlessEntry
  | .blockKey => m.stepBlockKey
  | .blockValue => m.stepBlockValue
  | .flowEntry first => m.stepFlowEntry first
  | .pairKey => m.stepPairKey
  | .pairValue => m.stepPairValue
  | .pairEnd => { m with expected := .flowEntry false }.emit .mappingEnd
  | .flowKey first => m.stepFlowKey first
  | .flowValue => m.stepFlowValue
  | .flowEmptyValue =>
    match m.tokens with
    | [] => .failed
    | tokens => m.omitted tokens (.flowKey false)

end Machine

/-- The first document of a text. -/
structure Document where
  events : List Event
  /-- The events end where the text becomes malformed. -/
  whole : Bool
  /-- Something other than the end of the text follows. -/
  continued : Bool

namespace Document

/-- After a document only marks of its end may come before the end of the text. -/
def isContinued (rest : List Token) : Bool :=
  (rest.dropWhile (· == .documentEnd)).head? != some .streamEnd

def collect : Nat → Machine → Document
  | 0, _ => ⟨[], false, true⟩
  | fuel + 1, m =>
    match m.step with
    | .event e next =>
      let d := collect fuel next
      { d with events := e :: d.events }
    | .finished rest => ⟨[], true, isContinued rest⟩
    | .failed => ⟨[], false, true⟩

def standardHandles : List (String × String) := [("!", "!"), ("!!", "tag:yaml.org,2002:")]

/-- The directives in front of a document and what follows them; a version other than 1.1 and 1.2
and a repeated directive are errors. -/
def directives : Bool → List (String × String) → List Token →
    Option (List (String × String) × List Token)
  | version, handles, .versionDirective major minor :: rest =>
    if version || major != 1 || (minor != 1 && minor != 2) then none
    else directives true handles rest
  | version, handles, .tagDirective handle expansion :: rest =>
    if handles.any (·.1 == handle) then none
    else directives version (handles ++ [(handle, expansion)]) rest
  | _, handles, rest => some (handles, rest)

def ofTokens (tokens : List Token) : Document :=
  let fuel := 4 * tokens.length + 16
  match tokens with
  | [] => ⟨[], false, true⟩
  | [.streamEnd] => ⟨[], true, false⟩
  | .versionDirective .. :: _ | .tagDirective .. :: _ | .documentStart :: _ =>
    match directives false [] tokens with
    | some (handles, .documentStart :: rest) =>
      collect fuel ⟨rest, .documentContent, [.documentEnd], handles ++ standardHandles⟩
    | _ => ⟨[], false, true⟩
  | tokens => collect fuel ⟨tokens, .blockNode, [.documentEnd], standardHandles⟩

end Document

end Rulebook.Yaml
