import Rulebook.Proofs.Json.Token

/-!
# Texts by their pieces

A JSON text is a tree of tokens, lists and tables with blanks anywhere between its pieces. What the
reader makes of such a text it makes of the tree.
-/

namespace Rulebook.Json

set_option autoImplicit false

/-- What a text says, token by token. -/
inductive Tree where
  | token (chars : List Char)
  | list (items : List Tree)
  | table (members : List (List Char × Tree))

namespace Tree

/-- A container, unless it lies too deep to be read. -/
def within (depth : Nat) (s : Source) : Source :=
  if depth ≤ mostContainers then s else .unreadable Source.anyFlaw none

mutual

/-- The source of a tree that lies in a number of containers. -/
def source (depth : Nat) : Tree → Source
  | .token chars => tokenSource chars
  | .list items => within (depth + 1) (.list (sources (depth + 1) items) none)
  | .table members => within (depth + 1) (.table (memberSources (depth + 1) members) none)

def sources (depth : Nat) : List Tree → List Source
  | [] => []
  | t :: rest => source depth t :: sources depth rest

def memberSources (depth : Nat) : List (List Char × Tree) → List (Source × Source)
  | [] => []
  | (name, t) :: rest => (tokenSource name, source depth t) :: memberSources depth rest

end

end Tree

namespace Tree

mutual

/-- The tokens are tokens. -/
def IsSound : Tree → Prop
  | .token chars => IsToken chars
  | .list items => AreSound items
  | .table members => MembersSound members

def AreSound : List Tree → Prop
  | [] => True
  | t :: rest => IsSound t ∧ AreSound rest

def MembersSound : List (List Char × Tree) → Prop
  | [] => True
  | (name, t) :: rest => IsToken name ∧ IsSound t ∧ MembersSound rest

end

end Tree

/-- The name of a member, which is a token, with the blanks around it. -/
structure Name where
  left : List Char
  token : List Char
  right : List Char

/-- A text, piece by piece. -/
inductive Form where
  | token (chars : List Char)
  /-- Blanks alone can be in an empty list. -/
  | list (gap : List Char) (items : List Form)
  | table (gap : List Char) (members : List (Name × Form))
  | padded (left : List Char) (inner : Form) (right : List Char)

namespace Name

def chars (name : Name) : List Char := name.left ++ (name.token ++ name.right)

/-- The token is a text, and there are only blanks around it. -/
structure IsSound (name : Name) : Prop where
  left : ∀ c ∈ name.left, isBlank c = true
  token : IsToken name.token
  quoted : name.token.head? = some '"'
  right : ∀ c ∈ name.right, isBlank c = true

end Name

namespace Form

mutual

def chars : Form → List Char
  | .token chars => chars
  | .list gap items => '[' :: (gap ++ (separated [','] (pieces items) ++ [']']))
  | .table gap members =>
    openBrace :: (gap ++ (separated [','] (memberPieces members) ++ [closeBrace]))
  | .padded left inner right => left ++ (chars inner ++ right)

def pieces : List Form → List (List Char)
  | [] => []
  | f :: rest => chars f :: pieces rest

def memberPieces : List (Name × Form) → List (List Char)
  | [] => []
  | (name, f) :: rest => (name.chars ++ ':' :: chars f) :: memberPieces rest

end

def text (f : Form) : String := String.ofList f.chars

mutual

/-- What the text says. -/
def tree : Form → Tree
  | .token chars => .token chars
  | .list _ items => .list (trees items)
  | .table _ members => .table (memberTrees members)
  | .padded _ inner _ => tree inner

def trees : List Form → List Tree
  | [] => []
  | f :: rest => tree f :: trees rest

def memberTrees : List (Name × Form) → List (List Char × Tree)
  | [] => []
  | (name, f) :: rest => (name.token, tree f) :: memberTrees rest

end

mutual

/-- The pieces are what they stand for. -/
def IsSound : Form → Prop
  | .token chars => IsToken chars
  | .list gap items => (∀ c ∈ gap, isBlank c = true) ∧ AreSound items
  | .table gap members => (∀ c ∈ gap, isBlank c = true) ∧ MembersSound members
  | .padded left inner right =>
    (∀ c ∈ left, isBlank c = true) ∧ IsSound inner ∧ ∀ c ∈ right, isBlank c = true

def AreSound : List Form → Prop
  | [] => True
  | f :: rest => IsSound f ∧ AreSound rest

def MembersSound : List (Name × Form) → Prop
  | [] => True
  | (name, f) :: rest => name.IsSound ∧ IsSound f ∧ MembersSound rest

end

end Form

/-! ## Sources without flaws -/

namespace Tree

theorem forget_within {depth : Nat} {inside : List Char} {s s' : Source} (h : s.forget = s')
    (hflaw : s'.flaw? = none) : (atDepth depth inside s).forget = within depth s' := by
  rw [atDepth, within]
  split
  · exact h
  · rw [Source.forget, ← Source.flaw?_forget, h, hflaw]

theorem flaw?_within {depth : Nat} {s : Source} (h : s.flaw? = none) :
    (within depth s).flaw? = none := by
  rw [within]
  split
  · exact h
  · rfl

mutual

theorem flaw?_source (t : Tree) (depth : Nat) (h : t.IsSound) : (t.source depth).flaw? = none := by
  cases t with
  | token chars => exact (IsToken.readsAs h).2
  | list items => exact flaw?_within (flaw?_list items _ h)
  | table members => exact flaw?_within (flaw?_table members _ h)

theorem flaw?_list (items : List Tree) (depth : Nat) (h : AreSound items) :
    (Source.list (sources depth items) none).flaw? = none := by
  cases items with
  | nil => rfl
  | cons t rest =>
    have hrest := flaw?_list rest depth h.2
    rw [Source.flaw?, Option.or_none] at hrest ⊢
    rw [sources, Source.flawIn?, flaw?_source t depth h.1, hrest]
    rfl

theorem flaw?_table (members : List (List Char × Tree)) (depth : Nat) (h : MembersSound members) :
    (Source.table (memberSources depth members) none).flaw? = none := by
  cases members with
  | nil => rfl
  | cons member rest =>
    obtain ⟨name, t⟩ := member
    have hrest := flaw?_table rest depth h.2.2
    rw [Source.flaw?, Option.or_none] at hrest ⊢
    rw [memberSources, Source.flawAmong?, (IsToken.readsAs h.1).2, flaw?_source t depth h.2.1, hrest]
    rfl

end

end Tree

namespace Form

mutual

theorem isSound_tree (f : Form) (h : f.IsSound) : f.tree.IsSound := by
  cases f with
  | token chars => exact h
  | list gap items => exact areSound_trees items h.2
  | table gap members => exact membersSound_trees members h.2
  | padded left inner right => exact isSound_tree inner h.2.1

theorem areSound_trees (items : List Form) (h : AreSound items) : Tree.AreSound (trees items) := by
  cases items with
  | nil => trivial
  | cons f rest => exact ⟨isSound_tree f h.1, areSound_trees rest h.2⟩

theorem membersSound_trees (members : List (Name × Form)) (h : MembersSound members) :
    Tree.MembersSound (memberTrees members) := by
  cases members with
  | nil => trivial
  | cons member rest =>
    obtain ⟨name, f⟩ := member
    exact ⟨h.1.token, isSound_tree f h.2.1, membersSound_trees rest h.2.2⟩

end

end Form

/-! ## Reading forms -/

namespace Form

theorem endsNumber_blank {blanks rest : List Char} (h : ∀ c ∈ blanks, isBlank c = true)
    (hrest : EndsNumber rest) : EndsNumber (blanks ++ rest) := by
  cases blanks with
  | nil => exact hrest
  | cons c blanks =>
    refine endsNumber_cons ?_ _
    have hc := h c List.mem_cons_self
    refine ⟨?_, ?_, ?_, ?_⟩
    · cases hdigit : c.isDigit with
      | false => rfl
      | true =>
        rw [isBlank_of_number (.inr hdigit)] at hc
        cases hc
    all_goals
      rintro rfl
      exact absurd hc (by decide)

theorem readString_name {name : Name} (h : name.IsSound) (more : List Char) :
    ∃ quoted s, skipBlank (name.chars ++ more) = '"' :: quoted ∧
      readString quoted = (s, .ok (name.right ++ more)) ∧ s.forget = tokenSource name.token := by
  obtain ⟨quoted, htoken⟩ : ∃ quoted, name.token = '"' :: quoted := by
    have hquoted := h.quoted
    cases hchars : name.token with
    | nil =>
      rw [hchars] at hquoted
      cases hquoted
    | cons c quoted =>
      rw [hchars] at hquoted
      cases hquoted
      exact ⟨quoted, rfl⟩
  have hwhole := h.token.2
  rw [htoken] at hwhole
  have hread : readString quoted = ((readString quoted).1, .ok []) := Prod.ext rfl hwhole
  obtain ⟨-, taken, hquoted, hmore⟩ := readString_split hread
  obtain ⟨s, hread', hs⟩ := hmore (name.right ++ more)
  rw [List.append_nil] at hquoted
  refine ⟨quoted ++ (name.right ++ more), s, ?_, by rw [hquoted, hread'], ?_⟩
  · rw [Name.chars, List.append_assoc, List.append_assoc, skipBlank_append h.left, htoken,
      List.cons_append, skipBlank_cons (by decide)]
  · rw [hs, htoken]
    rfl

mutual

theorem readValue_chars (f : Form) (fuel depth : Nat) (rest : List Char) (hf : f.IsSound)
    (hfuel : f.chars.length ≤ fuel) (hrest : EndsNumber rest) :
    ∃ s tail, readValue fuel depth (f.chars ++ rest) = (s, .ok tail) ∧
      s.forget = f.tree.source depth ∧ skipBlank tail = skipBlank rest := by
  cases f with
  | token chars =>
    obtain ⟨fuel, rfl⟩ : ∃ n, fuel = n + 1 := by
      cases fuel with
      | zero =>
        obtain rfl := List.length_eq_zero_iff.mp (Nat.le_zero.mp hfuel)
        cases hf.2
      | succ fuel => exact ⟨fuel, rfl⟩
    obtain ⟨s, hread, hs⟩ := (IsToken.readsAs hf).1 fuel depth rest hrest
    exact ⟨s, rest, hread, hs, rfl⟩
  | list gap items =>
    simp only [chars, List.length_cons, List.length_append, List.length_nil] at hfuel
    obtain ⟨fuel, rfl⟩ : ∃ n, fuel = n + 1 := ⟨fuel - 1, by omega⟩
    obtain ⟨sources, hread, hsources⟩ := readItems_chars items fuel (depth + 1) true gap rest
      (.inl rfl) hf.1 hf.2 (by omega)
    have htext : (list gap items).chars ++ rest =
        '[' :: (gap ++ (separated [','] (pieces items) ++ ']' :: rest)) := by simp [chars]
    refine ⟨_, rest, by rw [htext, readValue_items hread], ?_, rfl⟩
    exact Tree.forget_within (by rw [Source.forget, hsources])
      (Tree.flaw?_list _ _ (areSound_trees items hf.2))
  | table gap members =>
    simp only [chars, List.length_cons, List.length_append, List.length_nil] at hfuel
    obtain ⟨fuel, rfl⟩ : ∃ n, fuel = n + 1 := ⟨fuel - 1, by omega⟩
    obtain ⟨sources, hread, hsources⟩ := readMembers_chars members fuel (depth + 1) true gap rest
      (.inl rfl) hf.1 hf.2 (by omega)
    have htext : (table gap members).chars ++ rest = openBrace ::
        (gap ++ (separated [','] (memberPieces members) ++ closeBrace :: rest)) := by simp [chars]
    refine ⟨_, rest, by rw [htext, readValue_members hread], ?_, rfl⟩
    exact Tree.forget_within (by rw [Source.forget, hsources])
      (Tree.flaw?_table _ _ (membersSound_trees members hf.2))
  | padded left inner right =>
    simp only [chars, List.length_append] at hfuel
    obtain ⟨s, tail, hread, hs, htail⟩ := readValue_chars inner fuel depth (right ++ rest) hf.2.1
      (by omega) (endsNumber_blank hf.2.2 hrest)
    refine ⟨s, tail, ?_, hs, by rw [htail, skipBlank_append hf.2.2]⟩
    rw [chars, List.append_assoc, List.append_assoc, readValue_skip (skipBlank_append hf.1 _), hread]

theorem readItems_chars (items : List Form) (fuel depth : Nat) (first : Bool) (gap rest : List Char)
    (hfirst : first = true ∨ items ≠ []) (hgap : ∀ c ∈ gap, isBlank c = true) (hf : AreSound items)
    (hfuel : (separated [','] (pieces items)).length < fuel) :
    ∃ sources, readItems fuel depth first (gap ++ (separated [','] (pieces items) ++ ']' :: rest)) =
        (sources, .ok rest) ∧
      Source.forgetItems sources = Tree.sources depth (trees items) := by
  obtain ⟨fuel, rfl⟩ : ∃ n, fuel = n + 1 := ⟨fuel - 1, by omega⟩
  cases items with
  | nil =>
    rcases hfirst with rfl | hne
    · have hend : skipBlank (gap ++ (separated [','] (pieces []) ++ ']' :: rest)) = ']' :: rest := by
        rw [skipBlank_append hgap]
        rfl
      exact ⟨[], by rw [readItems, hend]; rfl, rfl⟩
    · exact absurd rfl hne
  | cons f others =>
    -- a separator follows each item but the last, and the gap stands in front of the first only
    cases others with
    | nil =>
      simp only [pieces, separated] at hfuel ⊢
      obtain ⟨s, tail, hread, hs, htail⟩ := readValue_chars f fuel depth (']' :: rest) hf.1 (by omega)
        (endsNumber_cons (by decide) _)
      refine ⟨[s], readItems_last (by rw [readValue_skip (skipBlank_append hgap _)]; exact hread) ?_, ?_⟩
      · rw [htail, skipBlank_cons (by decide)]
      · rw [Source.forgetItems, hs]
        rfl
    | cons g others =>
      simp only [pieces, separated, List.append_assoc, List.singleton_append, List.length_append,
        List.length_cons] at hfuel ⊢
      obtain ⟨s, tail, hread, hs, htail⟩ := readValue_chars f fuel depth
        (',' :: (separated [','] (pieces (g :: others)) ++ ']' :: rest)) hf.1 (by omega)
        (endsNumber_cons (by decide) _)
      obtain ⟨sources, hmore, hsources⟩ := readItems_chars (g :: others) fuel depth false [] rest
        (.inr (List.cons_ne_nil _ _)) (by simp) hf.2 (by rw [pieces]; omega)
      refine ⟨s :: sources, readItems_more (by
        rw [readValue_skip (skipBlank_append hgap _)]
        exact hread) (htail.trans (skipBlank_cons (by decide) _)) hmore, ?_⟩
      rw [Source.forgetItems, hs, hsources]
      rfl

theorem readMembers_chars (members : List (Name × Form)) (fuel depth : Nat) (first : Bool)
    (gap rest : List Char) (hfirst : first = true ∨ members ≠ [])
    (hgap : ∀ c ∈ gap, isBlank c = true) (hf : MembersSound members)
    (hfuel : (separated [','] (memberPieces members)).length < fuel) :
    ∃ sources, readMembers fuel depth first
        (gap ++ (separated [','] (memberPieces members) ++ closeBrace :: rest)) =
        (sources, .ok rest) ∧
      Source.forgetMembers sources = Tree.memberSources depth (memberTrees members) := by
  obtain ⟨fuel, rfl⟩ : ∃ n, fuel = n + 1 := ⟨fuel - 1, by omega⟩
  cases members with
  | nil =>
    rcases hfirst with rfl | hne
    · have hend : skipBlank (gap ++ (separated [','] (memberPieces []) ++ closeBrace :: rest)) =
          closeBrace :: rest := by
        rw [skipBlank_append hgap]
        rfl
      exact ⟨[], by rw [readMembers, hend]; rfl, rfl⟩
    · exact absurd rfl hne
  | cons member others =>
    obtain ⟨name, f⟩ := member
    obtain ⟨hname, hsound, hothers⟩ := hf
    cases others with
    | nil =>
      simp only [memberPieces, separated, List.append_assoc, List.cons_append, List.length_append,
        List.length_cons] at hfuel ⊢
      obtain ⟨s, tail, hread, hs, htail⟩ := readValue_chars f fuel depth (closeBrace :: rest) hsound
        (by omega) (endsNumber_cons (by decide) _)
      obtain ⟨quoted, k, hquote, hstring, hk⟩ := readString_name hname
        (':' :: (f.chars ++ closeBrace :: rest))
      refine ⟨[(k, s)], readMembers_last (by rw [skipBlank_append hgap, hquote]) hstring
        (by rw [skipBlank_append hname.right, skipBlank_cons (by decide)]) hread ?_, ?_⟩
      · rw [htail]
        exact skipBlank_cons (by decide) _
      · rw [Source.forgetMembers, hs, hk]
        rfl
    | cons other others =>
      obtain ⟨name', g⟩ := other
      simp only [memberPieces, separated, List.append_assoc, List.cons_append, List.nil_append,
        List.length_append, List.length_cons] at hfuel ⊢
      obtain ⟨s, tail, hread, hs, htail⟩ := readValue_chars f fuel depth
        (',' :: (separated [','] (memberPieces ((name', g) :: others)) ++ closeBrace :: rest)) hsound
        (by omega) (endsNumber_cons (by decide) _)
      obtain ⟨sources, hmore, hsources⟩ := readMembers_chars ((name', g) :: others) fuel depth false []
        rest (.inr (List.cons_ne_nil _ _)) (by simp) hothers (by
          rw [memberPieces]
          omega)
      obtain ⟨quoted, k, hquote, hstring, hk⟩ := readString_name hname (':' :: (f.chars ++
        ',' :: (separated [','] (memberPieces ((name', g) :: others)) ++ closeBrace :: rest)))
      refine ⟨(k, s) :: sources, readMembers_more (by rw [skipBlank_append hgap, ← hquote]; rfl) hstring
        (by rw [skipBlank_append hname.right, skipBlank_cons (by decide)]) hread
        (htail.trans (skipBlank_cons (by decide) _)) hmore, ?_⟩
      rw [Source.forgetMembers, hs, hk, hsources]
      rfl

end

/-- The text of a form is read as its tree. -/
theorem read_text {f : Form} (h : f.IsSound) :
    (read f.text).flaw = none ∧ (read f.text).source.forget = f.tree.source 0 := by
  have htext : f.text.toList = f.chars := String.toList_ofList
  obtain ⟨s, tail, hread, hs, htail⟩ := readValue_chars f (2 * f.chars.length + 2) 0 [] h (by omega)
    (by simp [EndsNumber])
  rw [List.append_nil] at hread
  have hend : skipBlank tail = [] := htail
  rw [read]
  simp only [htext, hread, hend]
  exact ⟨trivial, hs⟩

end Form

end Rulebook.Json
