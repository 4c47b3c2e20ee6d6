import Mathlib.Algebra.GroupWithZero.Nat
import Rulebook.Proofs.Disk.View

/-!
# Where a path leads

Without links a path leads to one place, whatever is on the disk: its components say where, one after
the other. The parent of a path has all components but the last, so the two places differ by one name
or by one step up.
-/

namespace Rulebook

set_option autoImplicit false

/-- One piece of a path further. -/
def Location.advance (l : Location) (piece : String) : Location :=
  match piece with
  | "" | "." => l
  | ".." => l.dropLast
  | name => l ++ [name]

theorem Location.advance_of_name (l : Location) {name : String} (hempty : name ≠ "")
    (hhere : name ≠ ".") (hup : name ≠ "..") : l.advance name = l ++ [name] := by
  unfold advance
  split <;> simp_all

namespace Path

/-- Where a path leads to from a current directory. -/
def placeFrom (here : Location) (p : Path) : Location :=
  (Disk.pieces p).foldl Location.advance (if p.isAbsolute then [] else here)

/-! ## Pieces between slashes -/

theorem slashPieces_ne_nil (cs : List Char) : slashPieces cs ≠ [] := by
  cases cs with
  | nil => simp [slashPieces]
  | cons c rest =>
    by_cases h : c = '/'
    · simp [slashPieces, h]
    · rw [slashPieces.eq_3 c rest h]
      split <;> simp

theorem eq_nil_of_slashPieces {cs : List Char} (h : slashPieces cs = [[]]) : cs = [] := by
  cases cs with
  | nil => rfl
  | cons c rest =>
    by_cases hc : c = '/'
    · rw [hc] at h
      exact absurd (List.cons.inj h).2 (slashPieces_ne_nil rest)
    · rw [slashPieces.eq_3 _ _ hc] at h
      split at h
      · cases h
      · cases h

theorem slashPieces_append_slash (front back : List Char) :
    slashPieces (front ++ '/' :: back) = slashPieces front ++ slashPieces back := by
  induction front with
  | nil => rfl
  | cons c front ih =>
    by_cases h : c = '/'
    · subst h
      simp [slashPieces, ih]
    · rw [List.cons_append, slashPieces.eq_3 _ _ h, slashPieces.eq_3 _ _ h, ih]
      cases hfront : slashPieces front with
      | nil => exact absurd hfront (slashPieces_ne_nil front)
      | cons piece pieces => rfl

theorem slashPieces_of_noSlash {cs : List Char} (h : '/' ∉ cs) : slashPieces cs = [cs] := by
  induction cs with
  | nil => rfl
  | cons c rest ih =>
    have hc : c ≠ '/' := fun heq => h (heq ▸ List.mem_cons_self)
    rw [slashPieces.eq_3 _ _ hc, ih fun hmem => h (List.mem_cons_of_mem _ hmem)]

theorem noSlash_of_mem_slashPieces {cs piece : List Char} (h : piece ∈ slashPieces cs) :
    '/' ∉ piece := by
  induction cs generalizing piece with
  | nil =>
    simp only [slashPieces, List.mem_singleton] at h
    simp [h]
  | cons c rest ih =>
    by_cases hc : c = '/'
    · subst hc
      rcases List.mem_cons.mp h with rfl | h
      · simp
      · exact ih h
    · rw [slashPieces.eq_3 _ _ hc] at h
      cases hrest : slashPieces rest with
      | nil => exact absurd hrest (slashPieces_ne_nil rest)
      | cons first pieces =>
        rw [hrest] at h ih
        rcases List.mem_cons.mp h with rfl | h
        · rw [List.mem_cons, not_or]
          exact ⟨Ne.symm hc, ih List.mem_cons_self⟩
        · exact ih (List.mem_cons_of_mem _ h)

theorem mem_of_mem_slashPieces {cs piece : List Char} (h : piece ∈ slashPieces cs) {c : Char}
    (hc : c ∈ piece) : c ∈ cs := by
  induction cs generalizing piece with
  | nil =>
    simp only [slashPieces, List.mem_singleton] at h
    rw [h] at hc
    exact hc
  | cons first rest ih =>
    by_cases hslash : first = '/'
    · subst hslash
      rcases List.mem_cons.mp h with rfl | h
      · cases hc
      · exact List.mem_cons_of_mem _ (ih h hc)
    · rw [slashPieces.eq_3 _ _ hslash] at h
      cases hrest : slashPieces rest with
      | nil => exact absurd hrest (slashPieces_ne_nil rest)
      | cons second pieces =>
        rw [hrest] at h ih
        rcases List.mem_cons.mp h with rfl | h
        · rcases List.mem_cons.mp hc with rfl | hc
          · exact List.mem_cons_self
          · exact List.mem_cons_of_mem _ (ih List.mem_cons_self hc)
        · exact List.mem_cons_of_mem _ (ih (List.mem_cons_of_mem _ h) hc)

/-- The pieces of a text are as long as the text, without the slashes between them. -/
theorem sum_slashPieces (cs : List Char) :
    ((slashPieces cs).map fun piece => (String.ofList piece).utf8ByteSize + 1).sum =
      (String.ofList cs).utf8ByteSize + 1 := by
  induction cs with
  | nil => rfl
  | cons c rest ih =>
    rw [String.ofList_cons, String.utf8ByteSize_append, String.utf8ByteSize_singleton]
    by_cases hc : c = '/'
    · subst hc
      have hslash : Char.utf8Size '/' = 1 := by decide
      rw [slashPieces, List.map_cons, List.sum_cons, ih, String.ofList_nil, String.utf8ByteSize_empty, hslash]
      omega
    · rw [slashPieces.eq_3 _ _ hc]
      cases hrest : slashPieces rest with
      | nil => exact absurd hrest (slashPieces_ne_nil rest)
      | cons piece pieces =>
        rw [hrest, List.map_cons, List.sum_cons] at ih
        rw [List.map_cons, List.sum_cons, String.ofList_cons, String.utf8ByteSize_append,
          String.utf8ByteSize_singleton]
        omega

theorem sum_pieces (p : Path) :
    ((Disk.pieces p).map fun piece => piece.utf8ByteSize + 1).sum = p.text.utf8ByteSize + 1 := by
  have hsum := sum_slashPieces p.text.toList
  rw [String.ofList_toList] at hsum
  rw [← hsum, Disk.pieces, List.map_map]
  rfl

theorem noSlash_of_mem_pieces {p : Path} {piece : String} (h : piece ∈ Disk.pieces p) :
    '/' ∉ piece.toList := by
  obtain ⟨cs, hcs, rfl⟩ := List.mem_map.mp h
  rw [String.toList_ofList]
  exact noSlash_of_mem_slashPieces hcs

theorem mem_text_of_mem_pieces {p : Path} {piece : String} (h : piece ∈ Disk.pieces p) {c : Char}
    (hc : c ∈ piece.toList) : c ∈ p.text.toList := by
  obtain ⟨cs, hcs, rfl⟩ := List.mem_map.mp h
  rw [String.toList_ofList] at hc
  exact mem_of_mem_slashPieces hcs hc

theorem text_ofPieces_cons (first second : List Char) (rest : List (List Char)) :
    (ofPieces (first :: second :: rest)).text.toList =
      first ++ '/' :: (ofPieces (second :: rest)).text.toList := by
  simp [ofPieces, String.intercalate_cons_cons, String.toList_append]

theorem slashPieces_ofPieces {pieces : List (List Char)} (hne : pieces ≠ [])
    (h : ∀ piece ∈ pieces, '/' ∉ piece) : slashPieces (ofPieces pieces).text.toList = pieces := by
  induction pieces with
  | nil => exact absurd rfl hne
  | cons first rest ih =>
    cases rest with
    | nil =>
      have htext : (ofPieces [first]).text.toList = first := by simp [ofPieces]
      rw [htext, slashPieces_of_noSlash (h first List.mem_cons_self)]
    | cons second rest =>
      rw [text_ofPieces_cons, slashPieces_append_slash,
        slashPieces_of_noSlash (h first List.mem_cons_self),
        ih (List.cons_ne_nil _ _) fun piece hpiece => h piece (List.mem_cons_of_mem _ hpiece)]
      rfl

/-! ## Components -/

/-- One component of a path further. -/
def Component.advance (l : Location) : Component → Location
  | .root => []
  | .here => l
  | .up => l.dropLast
  | .name s => l ++ [s]

def isNoise (piece : List Char) : Bool := piece.isEmpty || piece == ['.']

/-- What stands in front of the named components. -/
def lead : List (List Char) → List Component
  | [] :: _ :: _ => [.root]
  | ['.'] :: _ => [.here]
  | _ => []

theorem isAbsolute_iff (p : Path) :
    p.isAbsolute = true ↔ ∃ second rest, slashPieces p.text.toList = [] :: second :: rest := by
  rw [isAbsolute, beq_iff_eq]
  cases htext : p.text.toList with
  | nil => simp [slashPieces]
  | cons c rest =>
    by_cases hc : c = '/'
    · subst hc
      obtain ⟨second, more, hrest⟩ := List.exists_cons_of_ne_nil (slashPieces_ne_nil rest)
      simp [slashPieces, hrest]
    · rw [slashPieces.eq_3 _ _ hc]
      simp only [List.head?_cons, Option.some.injEq, hc, false_iff]
      split <;> simp

theorem components_eq (p : Path) :
    p.components =
      lead (slashPieces p.text.toList) ++ namedComponents (slashPieces p.text.toList) := by
  have habsolute := isAbsolute_iff p
  simp only [components]
  congr 1
  by_cases h : p.isAbsolute = true
  · obtain ⟨second, rest, hpieces⟩ := habsolute.mp h
    simp [h, hpieces, lead]
  · obtain ⟨first, rest, hpieces⟩ := List.exists_cons_of_ne_nil
      (slashPieces_ne_nil p.text.toList)
    rw [if_neg h, hpieces]
    rw [hpieces] at habsolute
    unfold lead
    split <;> simp_all

theorem namedComponents_append (front back : List (List Char)) :
    namedComponents (front ++ back) = namedComponents front ++ namedComponents back :=
  List.filterMap_append

theorem here_not_mem_namedComponents (pieces : List (List Char)) : .here ∉ namedComponents pieces := by
  rw [namedComponents, List.mem_filterMap]
  rintro ⟨piece, -, hpiece⟩
  split at hpiece <;> cases hpiece

theorem namedComponents_noise {piece : List Char} (h : isNoise piece = true) :
    namedComponents [piece] = [] := by
  simp only [isNoise, Bool.or_eq_true, List.isEmpty_iff, beq_iff_eq] at h
  rcases h with rfl | rfl <;> rfl

/-- A piece that is not noise is one component, a step up or a name. -/
theorem namedComponents_singleton {piece : List Char} (h : isNoise piece = false) :
    (piece = ['.', '.'] ∧ namedComponents [piece] = [.up]) ∨
      (String.ofList piece ≠ "" ∧ String.ofList piece ≠ "." ∧ String.ofList piece ≠ ".." ∧
        namedComponents [piece] = [.name (String.ofList piece)]) := by
  simp only [isNoise, Bool.or_eq_false_iff, List.isEmpty_eq_false_iff, beq_eq_false_iff_ne] at h
  have hofList (s : String) (hs : piece ≠ s.toList) : String.ofList piece ≠ s := by
    rintro rfl
    exact hs String.toList_ofList.symm
  by_cases hup : piece = ['.', '.']
  · subst hup
    exact .inl ⟨rfl, rfl⟩
  · refine .inr ⟨hofList "" h.1, hofList "." h.2, hofList ".." hup, ?_⟩
    simp only [namedComponents, List.filterMap_cons, List.filterMap_nil]
    split
    · rename_i heq
      split at heq <;> simp_all
    · rename_i heq
      split at heq <;> simp_all

theorem advance_ofList (l : Location) (piece : List Char) :
    l.advance (String.ofList piece) = (namedComponents [piece]).foldl Component.advance l := by
  by_cases hnoise : isNoise piece = true
  · rw [namedComponents_noise hnoise]
    simp only [isNoise, Bool.or_eq_true, List.isEmpty_iff, beq_iff_eq] at hnoise
    rcases hnoise with rfl | rfl <;> rfl
  · rw [Bool.not_eq_true] at hnoise
    rcases namedComponents_singleton hnoise with ⟨rfl, _⟩ | ⟨hempty, hhere, hup, hname⟩
    · rfl
    · rw [Location.advance_of_name l hempty hhere hup, hname]
      rfl

theorem foldl_advance (l : Location) (pieces : List (List Char)) :
    (pieces.map String.ofList).foldl Location.advance l =
      (namedComponents pieces).foldl Component.advance l := by
  induction pieces generalizing l with
  | nil => rfl
  | cons piece rest ih =>
    rw [List.map_cons, List.foldl_cons, ih, advance_ofList,
      show piece :: rest = [piece] ++ rest from rfl, namedComponents_append, List.foldl_append]

theorem foldl_lead (here : Location) (p : Path) :
    (lead (slashPieces p.text.toList)).foldl Component.advance here =
      if p.isAbsolute then [] else here := by
  have habsolute := isAbsolute_iff p
  by_cases h : p.isAbsolute = true
  · obtain ⟨second, rest, hpieces⟩ := habsolute.mp h
    rw [if_pos h, hpieces]
    rfl
  · rw [if_neg h]
    unfold lead
    split
    · rename_i second rest hpieces
      exact absurd (habsolute.mpr ⟨second, rest, hpieces⟩) h
    · rfl
    · rfl

theorem placeFrom_eq (here : Location) (p : Path) :
    p.placeFrom here = p.components.foldl Component.advance here := by
  rw [placeFrom, Disk.pieces, foldl_advance, components_eq, List.foldl_append, foldl_lead]

/-! ## Parents -/

def withoutNoise (pieces : List (List Char)) : List (List Char) :=
  (pieces.reverse.dropWhile fun piece => isNoise piece).reverse

theorem parentPieces_eq (pieces : List (List Char)) :
    parentPieces pieces = withoutNoise (withoutNoise pieces).dropLast := rfl

theorem withoutNoise_concat (front : List (List Char)) (piece : List Char) :
    withoutNoise (front ++ [piece]) =
      if isNoise piece then withoutNoise front else front ++ [piece] := by
  simp only [withoutNoise, List.reverse_append, List.reverse_singleton, List.singleton_append,
    List.dropWhile_cons]
  split <;> simp

theorem namedComponents_withoutNoise (pieces : List (List Char)) :
    namedComponents (withoutNoise pieces) = namedComponents pieces := by
  induction pieces using List.reverseRecOn with
  | nil => rfl
  | append_singleton front piece ih =>
    rw [withoutNoise_concat]
    split
    · rename_i hnoise
      rw [ih, namedComponents_append, namedComponents_noise hnoise,
        List.append_nil]
    · rfl

theorem namedComponents_dropLast (pieces : List (List Char)) :
    namedComponents (withoutNoise pieces).dropLast = (namedComponents pieces).dropLast := by
  induction pieces using List.reverseRecOn with
  | nil => rfl
  | append_singleton front piece ih =>
    rw [withoutNoise_concat, namedComponents_append]
    split
    · rename_i hnoise
      rw [ih, namedComponents_noise hnoise, List.append_nil]
    · rename_i hnoise
      rw [Bool.not_eq_true] at hnoise
      rw [List.dropLast_concat]
      rcases namedComponents_singleton hnoise with ⟨_, h⟩ | ⟨_, _, _, h⟩
      · rw [h, List.dropLast_concat]
      · rw [h, List.dropLast_concat]

theorem namedComponents_parentPieces (pieces : List (List Char)) :
    namedComponents (parentPieces pieces) = (namedComponents pieces).dropLast := by
  rw [parentPieces_eq, namedComponents_withoutNoise, namedComponents_dropLast]

theorem mem_of_mem_parentPieces {pieces : List (List Char)} {piece : List Char}
    (h : piece ∈ parentPieces pieces) : piece ∈ pieces := by
  have hsub (ps : List (List Char)) : ∀ x ∈ withoutNoise ps, x ∈ ps := by
    intro x hx
    rw [withoutNoise, List.mem_reverse] at hx
    exact List.mem_reverse.mp ((List.dropWhile_sublist _).subset hx)
  exact hsub _ _ (List.dropLast_subset _ (hsub _ _ h))

theorem components_of_slashPieces {p : Path} {pieces : List (List Char)}
    (h : slashPieces p.text.toList = pieces) :
    p.components = lead pieces ++ namedComponents pieces := by
  rw [components_eq, h]

theorem lead_cons (first : List Char) (second third : List Char) (rest more : List (List Char)) :
    lead (first :: second :: rest) = lead (first :: third :: more) := by
  cases first with
  | nil => rfl
  | cons c cs => unfold lead; split <;> simp_all

theorem lead_cons_of_ne {first : List Char} (h : first ≠ []) (rest more : List (List Char)) :
    lead (first :: rest) = lead (first :: more) := by
  unfold lead
  split <;> split <;> simp_all

theorem length_lead_append (first : List Char) (rest : List (List Char)) :
    (lead (first :: rest) ++ namedComponents [first]).length ≤ 1 := by
  by_cases hnoise : isNoise first = true
  · rw [namedComponents_noise hnoise, List.append_nil]
    unfold lead
    split <;> simp
  · rw [Bool.not_eq_true] at hnoise
    have hlead : lead (first :: rest) = [] := by
      unfold lead
      split <;> simp_all [isNoise]
    rw [hlead, List.nil_append]
    rcases namedComponents_singleton hnoise with ⟨_, h⟩ | ⟨_, _, _, h⟩ <;> simp [h]

/-- The parent of a path with one component is empty, and otherwise it has the pieces before the last
component. -/
theorem parent?_cases {p above : Path} (h : p.parent? = some above) :
    (∃ c, c ≠ .root ∧ p.components = [c] ∧ above = ⟨""⟩) ∨
      (2 ≤ p.components.length ∧ ∃ first rest, slashPieces p.text.toList = first :: rest ∧
        slashPieces above.text.toList =
          if first = [] ∧ parentPieces rest = [] then [[], []] else first :: parentPieces rest) := by
  unfold parent? at h
  split at h
  · cases h
  · cases h
  · rename_i c hroot hc
    cases h
    refine .inl ⟨c, fun heq => ?_, hc, rfl⟩
    exact hroot heq
  · rename_i hnil hroot hsingle
    have hlength : 2 ≤ p.components.length := by
      match hp : p.components with
      | [] => exact absurd hp hnil
      | [c] => exact absurd hp (hsingle c)
      | _ :: _ :: _ => simp
    refine .inr ⟨hlength, ?_⟩
    split at h
    · cases h
    · rename_i first rest hpieces
      refine ⟨first, rest, hpieces, ?_⟩
      split at h
      · rename_i hparent
        cases h
        rw [if_pos ⟨rfl, hparent⟩]
        rfl
      · rename_i first _ _ hslash
        cases h
        rw [if_neg fun hempty => hslash hempty.1 hempty.2]
        refine slashPieces_ofPieces (List.cons_ne_nil _ _) fun piece hpiece => ?_
        have hmem : piece ∈ slashPieces p.text.toList := by
          rw [hpieces]
          rcases List.mem_cons.mp hpiece with rfl | hpiece
          · exact List.mem_cons_self
          · exact List.mem_cons_of_mem _ (mem_of_mem_parentPieces hpiece)
        exact noSlash_of_mem_slashPieces hmem

/-- One component at most comes from the first piece, so there is another one in the rest. -/
theorem namedComponents_ne_nil {p : Path} {first : List Char} {rest : List (List Char)}
    (hlength : 2 ≤ p.components.length) (hpieces : slashPieces p.text.toList = first :: rest) :
    namedComponents rest ≠ [] := by
  intro hempty
  have hfirst : namedComponents (first :: rest) =
      namedComponents [first] ++ namedComponents rest := namedComponents_append [first] rest
  have hcomponents := components_of_slashPieces hpieces
  rw [hfirst, hempty, List.append_nil] at hcomponents
  have hshort := length_lead_append first rest
  rw [← hcomponents] at hshort
  omega

/-- The parent of a path has its components but the last. -/
theorem components_parent {p above : Path} (h : p.parent? = some above) :
    p.components ≠ [] ∧ p.components ≠ [.root] ∧
      above.components = p.components.dropLast := by
  rcases parent?_cases h with ⟨c, hroot, hc, rfl⟩ | ⟨hlength, first, rest, hpieces, habove⟩
  · rw [hc]
    exact ⟨List.cons_ne_nil _ _, fun heq => hroot (List.singleton_inj.mp heq), rfl⟩
  · have hrest := namedComponents_ne_nil hlength hpieces
    refine ⟨fun hnil => ?_, fun hsingle => ?_, ?_⟩
    · rw [hnil] at hlength
      simp at hlength
    · rw [hsingle] at hlength
      simp at hlength
    · obtain ⟨second, more, hmore⟩ : ∃ second more, rest = second :: more :=
        List.exists_cons_of_ne_nil fun hempty => hrest (by rw [hempty]; rfl)
      have hfirst (others : List (List Char)) : namedComponents (first :: others) =
          namedComponents [first] ++ namedComponents others := namedComponents_append [first] others
      rw [components_of_slashPieces hpieces, hfirst, ← List.append_assoc,
        List.dropLast_append_of_ne_nil hrest, ← namedComponents_parentPieces]
      split at habove
      · rename_i hempty
        rw [components_of_slashPieces habove, hempty.1, hempty.2, hmore]
        rfl
      · rename_i hslash
        rw [components_of_slashPieces habove, hfirst, List.append_assoc]
        congr 1
        by_cases hempty : first = []
        · obtain ⟨third, others, hothers⟩ : ∃ third others, parentPieces rest = third :: others :=
            List.exists_cons_of_ne_nil fun hnone => hslash ⟨hempty, hnone⟩
          rw [hothers, hmore]
          exact lead_cons first _ _ _ _
        · exact lead_cons_of_ne hempty _ _

theorem placeFrom_parent {p above : Path} (here : Location) (h : p.parent? = some above) :
    (∃ name, p.fileName? = some name ∧ p.placeFrom here = above.placeFrom here ++ [name]) ∨
      (p.fileName? = none ∧ (p.placeFrom here).length ≤ (above.placeFrom here).length) := by
  obtain ⟨hnil, hroot, habove⟩ := components_parent h
  obtain ⟨last, hlast⟩ : ∃ last, p.components = above.components ++ [last] :=
    ⟨p.components.getLast hnil, by rw [habove, List.dropLast_concat_getLast]⟩
  rw [placeFrom_eq, placeFrom_eq, fileName?, hlast, List.getLast?_concat, List.foldl_append]
  cases last with
  | root => right; simp [Component.advance]
  | here => right; simp [Component.advance]
  | up => right; simp [Component.advance]
  | name s => left; exact ⟨s, rfl, rfl⟩

theorem components_of_noParent {p : Path} (h : p.parent? = none) :
    p.components = [] ∨ p.components = [.root] := by
  unfold parent? at h
  split at h
  · rename_i hp
    exact .inl hp
  · rename_i hp
    exact .inr hp
  · cases h
  · split at h
    · rename_i hpieces
      exact absurd hpieces (slashPieces_ne_nil _)
    · split at h <;> cases h

theorem placeFrom_of_noParent {p : Path} (here : Location) (h : p.parent? = none) :
    p.fileName? = none ∧ (p.placeFrom here).length ≤ here.length := by
  rcases components_of_noParent h with hp | hp
  · rw [fileName?, placeFrom_eq, hp]
    exact ⟨rfl, Nat.le_refl _⟩
  · rw [fileName?, placeFrom_eq, hp]
    exact ⟨rfl, Nat.zero_le _⟩

/-! ## Joining a name -/

section Join

variable {name : String}

theorem isAbsolute_of_noSlash (hname : '/' ∉ name.toList) : (⟨name⟩ : Path).isAbsolute = false := by
  rw [isAbsolute, beq_eq_false_iff_ne]
  intro h
  exact hname (List.mem_of_mem_head? h)

theorem isNoise_name (hname : IsComponent name) : isNoise name.toList = false := by
  have hempty : name.toList ≠ [] := fun h => hname.nonempty (String.toList_eq_nil_iff.mp h)
  have hhere : name.toList ≠ ['.'] := fun h => hname.notHere (String.toList_inj.mp h)
  simp [isNoise, hempty, hhere]

/-- The text of a joined path, whose base is not empty. -/
theorem text_join (hname : '/' ∉ name.toList) {base : Path} (hbase : base.text ≠ "") :
    (∃ front, base.text.toList = front ++ ['/'] ∧ (base.join ⟨name⟩).text = base.text ++ name) ∨
      (base.join ⟨name⟩).text = base.text ++ "/" ++ name := by
  have hsecond : ((⟨name⟩ : Path).isAbsolute || base.text.isEmpty) = false := by
    rw [isAbsolute_of_noSlash hname, Bool.false_or, ← Bool.not_eq_true, String.isEmpty_iff]
    exact hbase
  unfold join
  rw [hsecond, if_neg Bool.false_ne_true]
  split
  · rename_i hlast
    obtain ⟨front, hfront⟩ := List.getLast?_eq_some_iff.mp (beq_iff_eq.mp hlast)
    exact .inl ⟨front, hfront, rfl⟩
  · exact .inr rfl

theorem pieces_join (hname : '/' ∉ name.toList) {base : Path} (hbase : base.text ≠ "") :
    ∃ front, Disk.pieces (base.join ⟨name⟩) = front ++ [name] ∧
      (Disk.pieces base = front ∨ Disk.pieces base = front ++ [""]) := by
  have hpieces := slashPieces_of_noSlash hname
  simp only [Disk.pieces]
  rcases text_join hname hbase with ⟨front, hfront, htext⟩ | htext
  · refine ⟨(slashPieces front).map String.ofList, ?_, .inr ?_⟩
    · rw [htext, String.toList_append, hfront, List.append_assoc, List.singleton_append,
        slashPieces_append_slash, hpieces]
      simp
    · rw [hfront, slashPieces_append_slash]
      simp [slashPieces]
  · refine ⟨(slashPieces base.text.toList).map String.ofList, ?_, .inl rfl⟩
    rw [htext, String.toList_append, String.toList_append, List.append_assoc]
    have hslash : ("/" : String).toList ++ name.toList = '/' :: name.toList := rfl
    rw [hslash, slashPieces_append_slash, hpieces]
    simp

theorem isAbsolute_join (hname : '/' ∉ name.toList) {base : Path} (hbase : base.text ≠ "") :
    (base.join ⟨name⟩).isAbsolute = base.isAbsolute := by
  obtain ⟨c, rest, htext⟩ : ∃ c rest, base.text.toList = c :: rest :=
    List.exists_cons_of_ne_nil fun h => hbase (String.toList_eq_nil_iff.mp h)
  rcases text_join hname hbase with ⟨_, _, hjoin⟩ | hjoin
  · simp [isAbsolute, hjoin, htext]
  · simp [isAbsolute, hjoin, htext]

theorem join_ne_empty (hname : '/' ∉ name.toList) {base : Path} (hbase : base.text ≠ "") :
    (base.join ⟨name⟩).text ≠ "" := by
  rcases text_join hname hbase with ⟨_, _, hjoin⟩ | hjoin
  · rw [hjoin]
    exact fun h => hbase (String.append_eq_empty_iff.mp h).1
  · rw [hjoin, String.append_assoc]
    exact fun h => hbase (String.append_eq_empty_iff.mp h).1

theorem placeFrom_join_piece (hname : '/' ∉ name.toList) {base : Path} (hbase : base.text ≠ "")
    (here : Location) :
    (base.join ⟨name⟩).placeFrom here = (base.placeFrom here).advance name := by
  obtain ⟨front, hjoin, hfront⟩ := pieces_join hname hbase
  rw [placeFrom, placeFrom, isAbsolute_join hname hbase, hjoin, List.foldl_append,
    List.foldl_cons, List.foldl_nil]
  rcases hfront with hfront | hfront
  · rw [hfront]
  · rw [hfront, List.foldl_append]
    rfl

theorem placeFrom_join (hname : IsComponent name) {base : Path} (hbase : base.text ≠ "")
    (here : Location) : (base.join ⟨name⟩).placeFrom here = base.placeFrom here ++ [name] := by
  rw [placeFrom_join_piece hname.noSlash hbase,
    Location.advance_of_name _ hname.nonempty hname.notHere hname.notUp]

theorem namedComponents_concat (hname : IsComponent name) (pieces : List (List Char)) :
    namedComponents (pieces ++ [name.toList]) = namedComponents pieces ++ [.name name] := by
  rw [namedComponents_append]
  rcases namedComponents_singleton (isNoise_name hname) with ⟨hup, -⟩ | ⟨-, -, -, h⟩
  · exact absurd (String.toList_inj.mp hup) hname.notUp
  · rw [h, String.ofList_toList]

theorem lead_singleton (hname : name ≠ ".") : lead [name.toList] = [] := by
  unfold lead
  split
  · rename_i h
    exact absurd (List.cons.inj h).2.symm (List.cons_ne_nil _ _)
  · rename_i h
    exact absurd (String.toList_inj.mp (List.cons.inj h).1) hname
  · rfl

/-- What stands in front is told by the first piece, unless that is empty and alone. -/
theorem lead_concat {pieces : List (List Char)} (hne : pieces ≠ []) (hempty : pieces ≠ [[]])
    (last : List Char) : lead (pieces ++ [last]) = lead pieces := by
  obtain ⟨first, rest, rfl⟩ := List.exists_cons_of_ne_nil hne
  cases rest with
  | nil => exact lead_cons_of_ne (fun hfirst => hempty (by rw [hfirst])) _ _
  | cons second rest => exact lead_cons first second second _ _

theorem components_piece (hslash : '/' ∉ name.toList) (hname : name ≠ ".") :
    (⟨name⟩ : Path).components = namedComponents [name.toList] := by
  rw [components_of_slashPieces (slashPieces_of_noSlash hslash), lead_singleton hname, List.nil_append]

theorem components_name (hname : IsComponent name) : (⟨name⟩ : Path).components = [.name name] := by
  rw [components_piece hname.noSlash hname.notHere]
  exact namedComponents_concat hname []

/-- A joined piece adds its component, if it has one. -/
theorem components_join_piece (hname : '/' ∉ name.toList) {base : Path} (hbase : base.text ≠ "") :
    (base.join ⟨name⟩).components = base.components ++ namedComponents [name.toList] := by
  have hpiece := slashPieces_of_noSlash hname
  have hpieces : slashPieces base.text.toList ≠ [[]] :=
    fun h => hbase (String.toList_eq_nil_iff.mp (eq_nil_of_slashPieces h))
  rcases text_join hname hbase with ⟨front, hfront, htext⟩ | htext
  · have hjoin : slashPieces (base.join ⟨name⟩).text.toList = slashPieces front ++ [name.toList] := by
      rw [htext, String.toList_append, hfront, List.append_assoc, List.singleton_append,
        slashPieces_append_slash, hpiece]
    have hsplit : slashPieces base.text.toList = slashPieces front ++ [[]] := by
      rw [hfront, slashPieces_append_slash]
      rfl
    have hlead : lead (slashPieces front ++ [name.toList]) = lead (slashPieces front ++ [[]]) := by
      obtain ⟨first, rest, hpieces⟩ := List.exists_cons_of_ne_nil (slashPieces_ne_nil front)
      rw [hpieces]
      cases rest with
      | nil => exact lead_cons first name.toList [] [] []
      | cons second rest => exact lead_cons first second second _ _
    have hnoise : namedComponents [[]] = [] := namedComponents_noise rfl
    rw [components_of_slashPieces hjoin, components_of_slashPieces hsplit, hlead,
      namedComponents_append, namedComponents_append, hnoise, List.append_nil, List.append_assoc]
  · have hslash : ("/" : String).toList ++ name.toList = '/' :: name.toList := rfl
    have hjoin : slashPieces (base.join ⟨name⟩).text.toList =
        slashPieces base.text.toList ++ [name.toList] := by
      rw [htext, String.toList_append, String.toList_append, List.append_assoc, hslash,
        slashPieces_append_slash, hpiece]
    rw [components_of_slashPieces hjoin, components_eq base,
      lead_concat (slashPieces_ne_nil _) hpieces, namedComponents_append, List.append_assoc]

/-- A joined name is one component more. -/
theorem components_join (hname : IsComponent name) (base : Path) :
    (base.join ⟨name⟩).components = base.components ++ [.name name] := by
  by_cases hbase : base.text = ""
  · have hjoin : base.join ⟨name⟩ = ⟨name⟩ := by simp [join, hbase]
    have hpieces : slashPieces base.text.toList = [[]] := by rw [hbase]; rfl
    have hnone : base.components = [] := components_of_slashPieces hpieces
    rw [hjoin, hnone, components_name hname, List.nil_append]
  · have hnamed : namedComponents [name.toList] = [.name name] := namedComponents_concat hname []
    rw [components_join_piece hname.noSlash hbase, hnamed]

theorem fileName?_join (hname : IsComponent name) (base : Path) :
    (base.join ⟨name⟩).fileName? = some name := by
  rw [fileName?, components_join hname, List.getLast?_concat]

theorem fileName?_name (hname : IsComponent name) : (⟨name⟩ : Path).fileName? = some name := by
  rw [fileName?, components_name hname]
  rfl

theorem extension?_join (hname : IsComponent name) (base : Path) :
    (base.join ⟨name⟩).extension? = (⟨name⟩ : Path).extension? := by
  rw [extension?, extension?, fileName?_join hname base, fileName?_name hname]

end Join

end Path

end Rulebook
