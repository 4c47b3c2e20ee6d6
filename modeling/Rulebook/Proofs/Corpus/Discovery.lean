import Rulebook.Corpus.Discovery
import Rulebook.Proofs.Disk.Files
import Rulebook.Proofs.Disk.Route

/-!
# Where card files are found

The path of a card file leads along the path of the rules directory and from there down to the file.
Its name ends like that of a card, so the file is no package.
-/

namespace Rulebook.Discovery

set_option autoImplicit false

variable {base : Path} {piece : String} {here : Location}

theorem not_isAbsolute_of_here (h : base.components = [.here]) : base.isAbsolute = false := by
  rw [Path.components] at h
  cases habsolute : base.isAbsolute with
  | false => rfl
  | true =>
    rw [habsolute, if_pos rfl] at h
    cases (List.cons.inj h).1

theorem placeFrom_here (h : base.components = [.here]) : base.placeFrom here = here := by
  rw [Path.placeFrom_eq, h]
  rfl

theorem pieces_of_noSlash (hpiece : '/' ∉ piece.toList) : Disk.pieces ⟨piece⟩ = [piece] := by
  simp [Disk.pieces, Path.slashPieces_of_noSlash hpiece]

theorem placeFrom_inside (hpiece : '/' ∉ piece.toList) (hbase : base.text ≠ "") :
    (inside base piece).placeFrom here = (base.placeFrom here).advance piece := by
  rw [inside]
  split
  · rename_i hhere
    rw [placeFrom_here hhere, Path.placeFrom, pieces_of_noSlash hpiece,
      Path.isAbsolute_of_noSlash hpiece]
    rfl
  · exact Path.placeFrom_join_piece hpiece hbase here

/-- One piece more adds one location to the way. -/
theorem way_inside (hpiece : '/' ∉ piece.toList) (hbase : base.text ≠ "") :
    ∀ m ∈ (inside base piece).way here,
      m ∈ base.way here ∨ m = (base.placeFrom here).advance piece := by
  intro m hm
  rw [inside] at hm
  split at hm
  · rename_i hhere
    rw [Path.way, pieces_of_noSlash hpiece, Path.isAbsolute_of_noSlash hpiece] at hm
    rw [placeFrom_here hhere, Path.way, not_isAbsolute_of_here hhere]
    rcases List.mem_cons.mp hm with rfl | hm
    · exact .inl (Path.mem_wayAlong_start _ _)
    · exact .inr (List.mem_singleton.mp hm)
  · exact (Path.mem_way_join_iff hpiece hbase).mp hm

theorem inside_ne_empty (hpiece : piece ≠ "") : (inside base piece).text ≠ "" := by
  rw [inside]
  split
  · exact hpiece
  · rw [Path.join]
    split
    · exact hpiece
    · split <;> exact fun h => hpiece (String.append_eq_empty_iff.mp h).2

/-! ## Files -/

/-- The path of what is at a location below another path. -/
def pathAt (base : Path) (l : Location) : Path := l.foldl inside base

theorem pathAt_concat (base : Path) (front : Location) (name : String) :
    pathAt base (front ++ [name]) = inside (pathAt base front) name := by
  rw [pathAt, List.foldl_append]
  rfl

mutual

theorem files_eq (path : Path) (e : Entry) : files path e = e.files.map (pathAt path) := by
  cases e with
  | file content => rfl
  | directory entries => exact filesIn_eq path entries

theorem filesIn_eq (base : Path) (entries : List (String × Entry)) :
    filesIn base entries = (Entry.filesIn entries).map (pathAt base) := by
  cases entries with
  | nil => rfl
  | cons part rest =>
    obtain ⟨name, e⟩ := part
    rw [filesIn, Entry.filesIn, files_eq (inside base name) e, filesIn_eq base rest, List.map_append,
      List.map_map]
    rfl

end

theorem pathAt_spec {l : Location} (hnames : ∀ name ∈ l, IsComponent name) (hbase : base.text ≠ "") :
    (pathAt base l).text ≠ "" ∧ (pathAt base l).placeFrom here = base.placeFrom here ++ l ∧
      ∀ m ∈ (pathAt base l).way here,
        m ∈ base.way here ∨ ∃ front, front <+: l ∧ m = base.placeFrom here ++ front := by
  induction l using List.reverseRecOn with
  | nil => exact ⟨hbase, (List.append_nil _).symm, fun m hm => .inl hm⟩
  | append_singleton front name ih =>
    have hname := hnames name (by simp)
    obtain ⟨hnonempty, hplace, hway⟩ := ih fun other hother => hnames other (by simp [hother])
    have hadvance : (base.placeFrom here ++ front).advance name =
        base.placeFrom here ++ (front ++ [name]) := by
      rw [Location.advance_of_name _ hname.nonempty hname.notHere hname.notUp, List.append_assoc]
    rw [pathAt_concat]
    refine ⟨inside_ne_empty hname.nonempty, ?_, fun m hm => ?_⟩
    · rw [placeFrom_inside hname.noSlash hnonempty, hplace, hadvance]
    · rcases way_inside hname.noSlash hnonempty m hm with hm | rfl
      · rcases hway m hm with hm | ⟨other, hprefix, rfl⟩
        · exact .inl hm
        · exact .inr ⟨other, List.IsPrefix.trans hprefix (List.prefix_append _ _), rfl⟩
      · rw [hplace, hadvance]
        exact .inr ⟨_, List.prefix_rfl, rfl⟩

/-! ## Names -/

theorem getLast?_inside (hpiece : piece ≠ "") :
    (inside base piece).text.toList.getLast? = piece.toList.getLast? := by
  have hne : piece.toList ≠ [] := fun h => hpiece (String.toList_eq_nil_iff.mp h)
  have hlast (front : String) : (front ++ piece).toList.getLast? = piece.toList.getLast? := by
    rw [String.toList_append, List.getLast?_append, Option.or_of_isSome]
    exact List.getLast?_isSome.mpr hne
  rw [inside]
  split
  · rfl
  · rw [Path.join]
    split
    · rfl
    · split
      · exact hlast _
      · exact hlast _

theorem getLast?_of_isCardPath {p : Path} (h : isCardPath p = true) :
    p.text.toList.getLast? = some 'l' := by
  obtain ⟨ending, hending, hsuffix⟩ := List.any_eq_true.mp h
  obtain ⟨front, htext⟩ := List.isSuffixOf_iff_suffix.mp hsuffix
  rw [← htext]
  simp only [endings, List.mem_cons, List.not_mem_nil, or_false] at hending
  rcases hending with rfl | rfl <;> simp [List.getLast?_append]

theorem getLast?_of_extension? {name : String} (hname : IsComponent name)
    (h : (⟨name⟩ : Path).extension? = some "json") : name.toList.getLast? = some 'n' := by
  rw [Path.extension?, Path.fileName?_name hname] at h
  dsimp only [Option.bind_some] at h
  split at h
  · have hafter := congrArg String.toList (Option.some.inj h)
    rw [String.toList_ofList] at hafter
    have hrev : name.toList.reverse.takeWhile (· != '.') = ['n', 'o', 's', 'j'] := by
      rw [← List.reverse_inj, hafter]
      rfl
    rw [← List.head?_reverse]
    cases hname : name.toList.reverse with
    | nil =>
      rw [hname] at hrev
      cases hrev
    | cons c rest =>
      rw [hname, List.takeWhile_cons] at hrev
      split at hrev
      · rw [(List.cons.inj hrev).1, List.head?_cons]
      · cases hrev
  · cases h

/-- A card file is no package. -/
theorem extension?_of_isCardPath {front : Location} {name : String} (hname : IsComponent name)
    (h : isCardPath (pathAt base (front ++ [name])) = true) :
    (⟨name⟩ : Path).extension? ≠ some "json" := by
  intro hextension
  have hlast := getLast?_of_isCardPath h
  rw [pathAt_concat, getLast?_inside hname.nonempty, getLast?_of_extension? hname hextension] at hlast
  cases hlast

end Rulebook.Discovery
