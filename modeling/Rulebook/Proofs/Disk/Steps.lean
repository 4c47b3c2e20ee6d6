import Rulebook.Proofs.Disk.Route

/-!
# The steps of a path

A path gets further by its names and its steps up alone. Its parent has the same steps but the last, so
the way to the parent is all of the way to the path but its end.
-/

namespace Rulebook.Path

set_option autoImplicit false

variable {p above : Path} {here m : Location}

/-- The names and the steps up of a path. -/
def steps (p : Path) : List Component := namedComponents (slashPieces p.text.toList)

def startFrom (here : Location) (p : Path) : Location := if p.isAbsolute then [] else here

theorem mem_wayAlong_iff {pieces : List (List Char)} {l : Location} :
    m ∈ wayAlong l (pieces.map String.ofList) ↔
      ∃ front, front <+: namedComponents pieces ∧ m = front.foldl Component.advance l := by
  induction pieces generalizing l with
  | nil => simp [wayAlong, namedComponents]
  | cons piece rest ih =>
    have hpieces : namedComponents (piece :: rest) =
        namedComponents [piece] ++ namedComponents rest := namedComponents_append [piece] rest
    rw [List.map_cons, wayAlong, List.mem_cons, ih, hpieces, advance_ofList]
    constructor
    · rintro (rfl | ⟨front, hfront, rfl⟩)
      · exact ⟨[], List.nil_prefix, rfl⟩
      · exact ⟨namedComponents [piece] ++ front, (List.prefix_append_right_inj _).mpr hfront,
          by rw [List.foldl_append]⟩
    · rintro ⟨front, hfront, rfl⟩
      by_cases hnoise : isNoise piece = true
      · rw [namedComponents_noise hnoise] at hfront ⊢
        exact .inr ⟨front, hfront, rfl⟩
      · obtain ⟨c, hc⟩ : ∃ c, namedComponents [piece] = [c] := by
          rcases namedComponents_singleton (Bool.not_eq_true _ ▸ hnoise) with
            ⟨_, h⟩ | ⟨_, _, _, h⟩
          · exact ⟨_, h⟩
          · exact ⟨_, h⟩
        rw [hc] at hfront ⊢
        cases front with
        | nil => exact .inl rfl
        | cons first others =>
          obtain ⟨rfl, hothers⟩ := List.cons_prefix_cons.mp hfront
          exact .inr ⟨others, hothers, rfl⟩

theorem mem_way_iff : m ∈ p.way here ↔
    ∃ front, front <+: p.steps ∧ m = front.foldl Component.advance (p.startFrom here) :=
  mem_wayAlong_iff

theorem placeFrom_eq_foldl (here : Location) (p : Path) :
    p.placeFrom here = p.steps.foldl Component.advance (p.startFrom here) :=
  foldl_advance _ _

theorem way_of_steps_eq_nil (h : p.steps = []) (hm : m ∈ p.way here) : m = p.startFrom here := by
  obtain ⟨front, hfront, rfl⟩ := mem_way_iff.mp hm
  rw [h, List.prefix_nil] at hfront
  rw [hfront]
  rfl

theorem length_steps_le (p : Path) : p.steps.length ≤ p.text.length := by
  have hcount : ∀ cs, (namedComponents (slashPieces cs)).length ≤ cs.length := by
    intro cs
    induction cs with
    | nil => exact Nat.le_refl _
    | cons c rest ih =>
      by_cases hc : c = '/'
      · subst hc
        exact Nat.le_succ_of_le ih
      · obtain ⟨first, more, hrest⟩ := List.exists_cons_of_ne_nil (slashPieces_ne_nil rest)
        rw [hrest, show first :: more = [first] ++ more from rfl, namedComponents_append,
          List.length_append] at ih
        have hone : (namedComponents [c :: first]).length ≤ 1 := List.length_filterMap_le _ _
        rw [slashPieces.eq_3 _ _ hc, hrest]
        dsimp only
        rw [show (c :: first) :: more = [c :: first] ++ more from rfl, namedComponents_append,
          List.length_append, List.length_cons]
        omega
  rw [← String.length_toList]
  exact hcount p.text.toList

/-! ## Parents -/

/-- The pieces of a parent that is not the empty path. A lone slash has two pieces of no use. -/
theorem slashPieces_parent (h : p.parent? = some above) (hne : above.text ≠ "") :
    ∃ first rest, slashPieces p.text.toList = first :: rest ∧ namedComponents rest ≠ [] ∧
      slashPieces above.text.toList =
        if first = [] ∧ parentPieces rest = [] then [[], []] else first :: parentPieces rest := by
  rcases parent?_cases h with ⟨_, _, _, rfl⟩ | ⟨hlength, first, rest, hpieces, habove⟩
  · exact absurd rfl hne
  · exact ⟨first, rest, hpieces, namedComponents_ne_nil hlength hpieces, habove⟩

theorem steps_parent (h : p.parent? = some above) (hne : above.text ≠ "") :
    above.steps = p.steps.dropLast := by
  obtain ⟨first, rest, hpieces, hrest, habove⟩ := slashPieces_parent h hne
  have hcons (others : List (List Char)) : namedComponents (first :: others) =
      namedComponents [first] ++ namedComponents others := namedComponents_append [first] others
  rw [steps, steps, hpieces, habove, hcons, List.dropLast_append_of_ne_nil hrest,
    ← namedComponents_parentPieces]
  split
  · rename_i hempty
    rw [hempty.1, hempty.2]
    rfl
  · exact hcons _

theorem startFrom_parent (here : Location) (h : p.parent? = some above) (hne : above.text ≠ "") :
    above.startFrom here = p.startFrom here := by
  obtain ⟨first, rest, hpieces, hrest, habove⟩ := slashPieces_parent h hne
  have hsome : rest ≠ [] := by
    rintro rfl
    exact hrest rfl
  have hsame : above.isAbsolute = true ↔ p.isAbsolute = true := by
    rw [isAbsolute_iff, isAbsolute_iff, hpieces, habove]
    obtain ⟨second, more, rfl⟩ := List.exists_cons_of_ne_nil hsome
    split
    · rename_i hempty
      simp [hempty.1]
    · rename_i hslash
      constructor
      · rintro ⟨third, others, heq⟩
        exact ⟨second, more, by rw [(List.cons.inj heq).1]⟩
      · rintro ⟨third, others, heq⟩
        have hfirst := (List.cons.inj heq).1
        obtain ⟨fourth, remains, hparent⟩ := List.exists_cons_of_ne_nil fun hnil =>
          hslash ⟨hfirst, hnil⟩
        exact ⟨fourth, remains, by rw [hfirst, hparent]⟩
  rw [startFrom, startFrom]
  simp only [hsame]

/-- All of the way to a path but its end is the way to the parent. -/
theorem mem_way_parent_iff (h : p.parent? = some above) (hne : above.text ≠ "") :
    m ∈ above.way here ↔ ∃ front, front <+: p.steps.dropLast ∧
      m = front.foldl Component.advance (p.startFrom here) := by
  rw [mem_way_iff, steps_parent h hne, startFrom_parent here h hne]

theorem way_parent (h : p.parent? = some above) (hne : above.text ≠ "")
    (hm : m ∈ above.way here) : m ∈ p.way here := by
  obtain ⟨front, hfront, rfl⟩ := (mem_way_parent_iff h hne).mp hm
  exact mem_way_iff.mpr ⟨front, hfront.trans (List.dropLast_prefix _), rfl⟩

theorem way_of_parent (h : p.parent? = some above) (hne : above.text ≠ "")
    (hm : m ∈ p.way here) : m ∈ above.way here ∨ m = p.placeFrom here := by
  obtain ⟨front, hfront, rfl⟩ := mem_way_iff.mp hm
  rw [mem_way_parent_iff h hne, placeFrom_eq_foldl]
  rcases List.eq_nil_or_concat' p.steps with hnil | ⟨others, last, hsteps⟩
  · rw [hnil] at hfront ⊢
    exact .inl ⟨front, hfront, rfl⟩
  · rw [hsteps] at hfront ⊢
    rw [List.dropLast_concat]
    rcases List.prefix_concat_iff.mp hfront with rfl | hfront
    · exact .inr rfl
    · exact .inl ⟨front, hfront, rfl⟩

theorem mem_pieces_parent (h : p.parent? = some above) (hne : above.text ≠ "") {piece : String}
    (hpiece : piece ∈ Disk.pieces above) : piece ∈ Disk.pieces p ∨ piece = "" := by
  obtain ⟨first, rest, hpieces, -, habove⟩ := slashPieces_parent h hne
  obtain ⟨cs, hcs, rfl⟩ := List.mem_map.mp hpiece
  rw [habove] at hcs
  split at hcs
  · simp only [List.mem_cons, List.not_mem_nil, or_false, or_self] at hcs
    rw [hcs]
    exact .inr rfl
  · refine .inl (List.mem_map_of_mem ?_)
    rw [hpieces]
    rcases List.mem_cons.mp hcs with rfl | hcs
    · exact List.mem_cons_self
    · exact List.mem_cons_of_mem _ (mem_of_mem_parentPieces hcs)

theorem ne_root_of_mem_steps {c : Component} (h : c ∈ p.steps) : c ≠ .root := by
  rintro rfl
  obtain ⟨piece, -, hpiece⟩ := List.mem_filterMap.mp h
  split at hpiece <;> cases hpiece

theorem steps_of_noParent (h : p.parent? = none) : p.steps = [] := by
  rw [List.eq_nil_iff_forall_not_mem]
  intro c hc
  have hmem : c ∈ p.components := by
    rw [components_eq]
    exact List.mem_append_right _ hc
  rcases components_of_noParent h with hp | hp
  · rw [hp] at hmem
    cases hmem
  · rw [hp] at hmem
    exact ne_root_of_mem_steps hc (List.mem_singleton.mp hmem)

theorem steps_of_emptyParent (h : p.parent? = some ⟨""⟩) :
    p.steps.length ≤ 1 ∧ p.isAbsolute = false := by
  rcases parent?_cases h with ⟨c, hroot, hc, -⟩ | ⟨-, first, rest, -, hpieces⟩
  · rw [components_eq] at hc
    constructor
    · have hlength := congrArg List.length hc
      rw [List.length_append, List.length_singleton] at hlength
      rw [steps]
      omega
    · rw [← Bool.not_eq_true, isAbsolute_iff]
      rintro ⟨second, more, hpieces⟩
      rw [hpieces] at hc
      exact hroot (List.cons.inj hc).1.symm
  · split at hpieces
    · cases hpieces
    · rename_i hslash
      obtain ⟨hfirst, hparent⟩ := List.cons.inj hpieces
      exact absurd ⟨hfirst.symm, hparent.symm⟩ hslash

theorem exists_parent (h : 2 ≤ p.steps.length) :
    ∃ above, p.parent? = some above ∧ above.text ≠ "" := by
  cases habove : p.parent? with
  | none =>
    rw [steps_of_noParent habove] at h
    cases h
  | some above =>
    refine ⟨above, rfl, fun hempty => ?_⟩
    obtain ⟨text⟩ := above
    cases hempty
    have hshort := (steps_of_emptyParent habove).1
    omega

/-! ## Texts of parents -/

theorem ofPieces_slashPieces (p : Path) : ofPieces (slashPieces p.text.toList) = p := by
  obtain ⟨text⟩ := p
  have htext : ∀ cs, (ofPieces (slashPieces cs)).text.toList = cs := by
    intro cs
    induction cs with
    | nil => rfl
    | cons c rest ih =>
      obtain ⟨first, more, hpieces⟩ := List.exists_cons_of_ne_nil (slashPieces_ne_nil rest)
      by_cases hc : c = '/'
      · subst hc
        rw [slashPieces, hpieces, text_ofPieces_cons, ← hpieces, ih]
        rfl
      · rw [slashPieces.eq_3 _ _ hc, hpieces]
        rw [hpieces] at ih
        cases more with
        | nil => simpa [ofPieces] using ih
        | cons second others =>
          rw [text_ofPieces_cons] at ih ⊢
          rw [List.cons_append, ih]
  exact congrArg Path.mk (String.toList_inj.mp (htext text.toList))

theorem withoutNoise_isPrefix (pieces : List (List Char)) : withoutNoise pieces <+: pieces := by
  rw [withoutNoise, ← List.reverse_suffix, List.reverse_reverse]
  exact List.dropWhile_suffix _

theorem parentPieces_isPrefix (pieces : List (List Char)) : parentPieces pieces <+: pieces :=
  (withoutNoise_isPrefix _).trans ((List.dropLast_prefix _).trans (withoutNoise_isPrefix _))

theorem text_ofPieces_isPrefix (first : List Char) {back front : List (List Char)}
    (h : front <+: back) :
    (ofPieces (first :: front)).text.toList <+: (ofPieces (first :: back)).text.toList := by
  induction front generalizing first back with
  | nil =>
    cases back with
    | nil => exact List.prefix_rfl
    | cons second rest =>
      rw [text_ofPieces_cons]
      simp [ofPieces]
  | cons second front ih =>
    cases back with
    | nil => simp at h
    | cons third back =>
      obtain ⟨rfl, hfront⟩ := List.cons_prefix_cons.mp h
      rw [text_ofPieces_cons, text_ofPieces_cons, List.prefix_append_right_inj,
        List.cons_prefix_cons]
      exact ⟨rfl, ih second hfront⟩

theorem text_parent (h : p.parent? = some above) (hne : above.text ≠ "") :
    above.text.toList <+: p.text.toList := by
  obtain ⟨first, rest, hpieces, hrest, habove⟩ := slashPieces_parent h hne
  rw [← ofPieces_slashPieces p, ← ofPieces_slashPieces above, hpieces, habove]
  split
  · rename_i hempty
    obtain ⟨second, more, rfl⟩ : ∃ second more, rest = second :: more :=
      List.exists_cons_of_ne_nil fun hnil => hrest (by rw [hnil]; rfl)
    rw [hempty.1, text_ofPieces_cons]
    simp [ofPieces]
  · exact text_ofPieces_isPrefix first (parentPieces_isPrefix rest)

/-! ## Ends of paths -/

/-- A path without anything behind its last step. -/
def Ends (p : Path) : Prop :=
  p.steps = [] ∨ ∃ front last, slashPieces p.text.toList = front ++ [last] ∧ isNoise last = false

theorem steps_of_ends {front : List (List Char)} {last : List Char}
    (hpieces : slashPieces p.text.toList = front ++ [last]) (hlast : isNoise last = false) :
    p.steps ≠ [] ∧ p.steps.dropLast = namedComponents front := by
  obtain ⟨c, hc⟩ : ∃ c, namedComponents [last] = [c] := by
    rcases namedComponents_singleton hlast with ⟨_, h⟩ | ⟨_, _, _, h⟩
    · exact ⟨_, h⟩
    · exact ⟨_, h⟩
  rw [steps, hpieces, namedComponents_append, hc, List.dropLast_concat]
  exact ⟨by simp, rfl⟩

theorem withoutNoise_cases (pieces : List (List Char)) :
    withoutNoise pieces = [] ∨
      ∃ front last, withoutNoise pieces = front ++ [last] ∧ isNoise last = false := by
  induction pieces using List.reverseRecOn with
  | nil => exact .inl rfl
  | append_singleton front last ih =>
    rw [withoutNoise_concat]
    split
    · exact ih
    · rename_i hlast
      exact .inr ⟨front, last, rfl, Bool.not_eq_true _ ▸ hlast⟩

theorem ends_parent (h : p.parent? = some above) (hne : above.text ≠ "") : above.Ends := by
  obtain ⟨first, rest, -, -, habove⟩ := slashPieces_parent h hne
  split at habove
  · left
    rw [steps, habove]
    rfl
  · rw [parentPieces_eq] at habove
    rcases withoutNoise_cases (withoutNoise rest).dropLast with hnil | ⟨front, last, hrest, hlast⟩
    · rw [hnil] at habove
      by_cases hfirst : isNoise first = true
      · left
        rw [steps, habove, namedComponents_noise hfirst]
      · exact .inr ⟨[], first, habove, Bool.not_eq_true _ ▸ hfirst⟩
    · rw [hrest] at habove
      exact .inr ⟨first :: front, last, habove, hlast⟩

theorem ends_join {name : String} (hname : IsComponent name) {base : Path} (hbase : base.text ≠ "") :
    (base.join ⟨name⟩).Ends := by
  obtain ⟨front, hjoin, -⟩ := pieces_join hname.noSlash hbase
  obtain ⟨others, last, hpieces, -, hlast⟩ := List.map_eq_append_iff.mp hjoin
  obtain ⟨piece, rfl, hpiece⟩ := List.map_eq_singleton_iff.mp hlast
  have hofList : piece = name.toList := by rw [← hpiece, String.toList_ofList]
  rw [hofList] at hpieces
  exact .inr ⟨others, name.toList, hpieces, isNoise_name hname⟩

end Rulebook.Path
