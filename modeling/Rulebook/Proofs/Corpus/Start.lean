import Rulebook.Proofs.Corpus.Reload

/-!
# Where the paths of card files start

The path of a directory of cards is followed piece by piece, and the paths of the files start with what has
been followed: the same directory, by the same components. But a path that starts with dots loses its way if
an empty piece follows them, as in a dot and a slash.
-/

namespace Rulebook.Discovery

set_option autoImplicit false

open Rulebook.Path (namedComponents slashPieces)

variable {d : Disk} {root base : Path} {R l : Location} {piece : String} {pieces : List String}

/-- The path starts with dots, and an empty piece follows them. -/
def LosesWay (root : Path) : Prop :=
  ∃ k rest, Disk.pieces root = List.replicate (k + 1) "." ++ "" :: rest

/-- A piece that can be followed. -/
structure IsPassable (piece : String) : Prop where
  noSlash : '/' ∉ piece.toList
  noNul : '\x00' ∉ piece.toList
  short : Disk.isTooLong piece = false

theorem isPassable_of_locate (h : d.locate root = .ok R) : ∀ piece ∈ Disk.pieces root, IsPassable piece := by
  obtain ⟨hcheck, hfollow⟩ := (Disk.locate_ok_iff root R).mp h
  intro piece hpiece
  refine ⟨Path.noSlash_of_mem_pieces hpiece, fun hnul => ?_, Disk.short_of_foldlM_follow hfollow piece hpiece⟩
  exact ((Disk.checkText_ok_iff root).mp hcheck).1 (Path.mem_text_of_mem_pieces hpiece hnul)

theorem follow_of_leads (h : d.Leads (inside base piece) l) :
    follow d base piece = some (inside base piece) := by
  have hthere : d.contains (inside base piece) = true :=
    (Disk.contains_iff _).mpr ⟨l, h.located, by rw [h.directory]; rfl⟩
  rw [follow, hthere, Bool.or_true, if_pos rfl]

theorem inside_of_apart (happart : .here ∉ base.components) : inside base piece = base.join ⟨piece⟩ := by
  rw [inside, if_neg]
  intro heq
  rw [heq] at happart
  exact happart List.mem_cons_self

/-- How long a path is with a slash at its end. -/
def sizeToSlash (p : Path) : Nat :=
  if p.text.toList.getLast? == some '/' then p.text.utf8ByteSize else p.text.utf8ByteSize + 1

theorem sizeToSlash_le (p : Path) : sizeToSlash p ≤ p.text.utf8ByteSize + 1 := by
  rw [sizeToSlash]
  split <;> omega

theorem size_join (hpiece : '/' ∉ piece.toList) (hbase : base.text ≠ "") :
    (base.join ⟨piece⟩).text.utf8ByteSize = sizeToSlash base + piece.utf8ByteSize := by
  have hslash : ("/" : String).utf8ByteSize = 1 := by decide
  have hrelative : ((⟨piece⟩ : Path).isAbsolute || base.text.isEmpty) = false := by
    rw [Path.isAbsolute_of_noSlash hpiece, Bool.false_or, ← Bool.not_eq_true, String.isEmpty_iff]
    exact hbase
  rw [Path.join, sizeToSlash, hrelative, if_neg Bool.false_ne_true]
  split
  · rw [String.utf8ByteSize_append]
  · rw [String.utf8ByteSize_append, String.utf8ByteSize_append, hslash]

/-- Behind a first component every piece adds to the base what it adds to the path. -/
theorem foldlM_follow_of_way (hleads : d.Leads base l) (happart : .here ∉ base.components)
    (hpieces : ∀ piece ∈ pieces, IsPassable piece)
    (hsize : sizeToSlash base + (pieces.map fun piece => piece.utf8ByteSize + 1).sum ≤ Disk.longestPath + 1)
    (hway : ∀ m ∈ Path.wayAlong l pieces, d.kind? m = some .directory) :
    ∃ base', pieces.foldlM (follow d) base = some base' ∧ d.Leads base' (pieces.foldl Location.advance l) ∧
      base'.components = base.components ++ namedComponents (pieces.map String.toList) := by
  induction pieces generalizing base l with
  | nil => exact ⟨base, rfl, hleads, (List.append_nil _).symm⟩
  | cons piece rest ih =>
    obtain ⟨hpiece, hrest⟩ := List.forall_mem_cons.mp hpieces
    have hahead (m : Location) (hm : m ∈ Path.wayAlong (l.advance piece) rest) :
        d.kind? m = some .directory := hway m (List.mem_cons_of_mem _ hm)
    -- the next base is as long as this one with a slash and the piece, so the bound carries over
    have hjoin := size_join hpiece.noSlash hleads.nonempty
    have hnextSize := sizeToSlash_le (base.join ⟨piece⟩)
    rw [List.map_cons, List.sum_cons] at hsize
    have hfits : base.Fits piece := by
      rw [Path.Fits]
      omega
    have hnext := hleads.join_piece hpiece.noSlash hpiece.noNul hpiece.short hfits
      (hahead _ (Path.mem_wayAlong_start _ rest))
    have hcomponents := Path.components_join_piece hpiece.noSlash hleads.nonempty
    have happart' : .here ∉ (base.join ⟨piece⟩).components := by
      rw [hcomponents, List.mem_append, not_or]
      exact ⟨happart, Path.here_not_mem_namedComponents _⟩
    obtain ⟨base', hfold, hleads', hbase'⟩ := ih hnext happart' hrest (by omega) hahead
    refine ⟨base', ?_, hleads', ?_⟩
    · have hinside : inside base piece = base.join ⟨piece⟩ := inside_of_apart happart
      rw [List.foldlM_cons, follow_of_leads (by rw [hinside]; exact hnext), hinside]
      exact hfold
    · rw [hbase', hcomponents, List.append_assoc, ← Path.namedComponents_append]
      rfl

/-- The components of a path, without the dot it may start with. -/
def steps (p : Path) : List Path.Component := p.components.filter (· != .here)

theorem filter_namedComponents (pieces : List (List Char)) :
    (namedComponents pieces).filter (· != .here) = namedComponents pieces := by
  rw [List.filter_eq_self]
  intro component hcomponent
  rw [bne_iff_ne]
  rintro rfl
  exact Path.here_not_mem_namedComponents pieces hcomponent

theorem steps_eq (p : Path) :
    steps p = (if p.isAbsolute then [.root] else []) ++ namedComponents (slashPieces p.text.toList) := by
  rw [steps, Path.components, List.filter_append, filter_namedComponents]
  refine congrArg (· ++ _) ?_
  split
  · rfl
  · split <;> rfl

theorem map_toList_ofList (pieces : List (List Char)) :
    (pieces.map String.ofList).map String.toList = pieces := by
  rw [List.map_map]
  exact (List.map_congr_left fun _ _ => String.toList_ofList).trans (List.map_id _)

/-- The steps of a path that starts with dots are those of its other pieces. -/
theorem steps_of_dots (hrelative : root.isAbsolute = false) {k : Nat}
    (hpieces : Disk.pieces root = List.replicate k "." ++ pieces) :
    steps root = namedComponents (pieces.map String.toList) := by
  have hlists : slashPieces root.text.toList = List.replicate k ['.'] ++ pieces.map String.toList := by
    rw [← map_toList_ofList (slashPieces _), ← Disk.pieces, hpieces, List.map_append, List.map_replicate]
    rfl
  have hdots : namedComponents (List.replicate k ['.']) = [] := by
    rw [namedComponents, List.filterMap_eq_nil_iff]
    intro piece hpiece
    rw [List.eq_of_mem_replicate hpiece]
    rfl
  rw [steps_eq, hrelative, hlists, Path.namedComponents_append, hdots]
  rfl

theorem exists_dots (pieces : List String) :
    ∃ k rest, pieces = List.replicate k "." ++ rest ∧ rest.head? ≠ some "." := by
  induction pieces with
  | nil => exact ⟨0, [], rfl, nofun⟩
  | cons piece more ih =>
    by_cases hdot : piece = "."
    · obtain ⟨k, rest, rfl, hrest⟩ := ih
      exact ⟨k + 1, rest, by rw [hdot]; rfl, hrest⟩
    · exact ⟨0, piece :: more, rfl, fun heq => hdot (Option.some.inj heq)⟩

theorem inside_here (piece : String) : inside ⟨"."⟩ piece = ⟨piece⟩ := if_pos rfl

theorem foldlM_follow_dots (k : Nat) (rest : List String) :
    (List.replicate k "." ++ rest).foldlM (follow d) ⟨"."⟩ = rest.foldlM (follow d) ⟨"."⟩ := by
  induction k with
  | zero => rfl
  | succ k ih =>
    have hdot : follow d ⟨"."⟩ "." = some ⟨"."⟩ := by
      rw [follow, inside_here]
      rfl
    rw [List.replicate_succ, List.cons_append, List.foldlM_cons, hdot]
    exact ih

/-- The empty path leads nowhere. -/
theorem foldlM_follow_blank (rest : List String) : ("" :: rest).foldlM (follow d) ⟨"."⟩ = none := by
  have hnowhere : d.contains ⟨""⟩ = false := by
    rw [← Bool.not_eq_true, Disk.contains_iff]
    rintro ⟨l, hlocate, -⟩
    exact ((Disk.checkText_ok_iff _).mp ((Disk.locate_ok_iff _ l).mp hlocate).1).2.1 rfl
  rw [List.foldlM_cons, follow, inside_here, hnowhere]
  rfl

theorem base?_of_losesWay (h : LosesWay root) : base? d root = none := by
  obtain ⟨k, rest, hpieces⟩ := h
  have hrelative : root.isAbsolute = false := by
    rw [← Bool.not_eq_true, Path.isAbsolute_iff]
    rintro ⟨second, more, hslash⟩
    rw [Disk.pieces, hslash] at hpieces
    exact absurd (List.cons.inj hpieces).1 (by decide)
  rw [base?, hrelative, if_neg Bool.false_ne_true, hpieces, foldlM_follow_dots, foldlM_follow_blank]

theorem foldl_advance_dots (k : Nat) (l : Location) :
    (List.replicate k "." ++ pieces).foldl Location.advance l = pieces.foldl Location.advance l := by
  induction k with
  | zero => rfl
  | succ k ih => exact ih

theorem mem_wayAlong_dots (k : Nat) {m : Location} (hm : m ∈ Path.wayAlong l pieces) :
    m ∈ Path.wayAlong l (List.replicate k "." ++ pieces) := by
  induction k with
  | zero => exact hm
  | succ k ih => exact List.mem_cons_of_mem _ ih

theorem leads_of_piece (hpiece : IsPassable piece) (hempty : piece ≠ "")
    (hsize : piece.utf8ByteSize ≤ Disk.longestPath) (hhere : d.kind? d.here = some .directory)
    (hnext : d.kind? (d.here.advance piece) = some .directory) :
    d.Leads ⟨piece⟩ (d.here.advance piece) := by
  have hpieces := pieces_of_noSlash hpiece.noSlash
  have hrelative := Path.isAbsolute_of_noSlash hpiece.noSlash
  have hplace : (⟨piece⟩ : Path).placeFrom d.here = d.here.advance piece := by
    rw [Path.placeFrom, hpieces, hrelative]
    rfl
  rw [← hplace]
  refine Disk.leads_of_way ((Disk.checkText_ok_iff _).mpr ⟨hpiece.noNul, hempty, hsize⟩) ?_ ?_
  · rw [hpieces]
    exact List.forall_mem_singleton.mpr hpiece.short
  · rw [Path.way, hpieces, hrelative]
    exact List.forall_mem_cons.mpr ⟨hhere, List.forall_mem_singleton.mpr hnext⟩

theorem leads_top (h : d.kind? [] = some .directory) : d.Leads ⟨"/"⟩ [] := by
  refine Disk.leads_of_way (p := ⟨"/"⟩) ((Disk.checkText_ok_iff _).mpr (by decide)) (by decide) ?_
  intro m hm
  have hm : m ∈ [[], [], ([] : Location)] := hm
  simp only [List.mem_cons, List.not_mem_nil, or_false, or_self] at hm
  rw [hm]
  exact h

/-- A relative path starts with a piece of its own. -/
theorem head?_pieces_ne_blank (hrelative : root.isAbsolute = false) (hnonempty : root.text ≠ "") :
    (Disk.pieces root).head? ≠ some "" := by
  obtain ⟨first, rest, hslash⟩ := List.exists_cons_of_ne_nil (Path.slashPieces_ne_nil root.text.toList)
  rw [Disk.pieces, hslash]
  intro hblank
  obtain rfl : first = [] := by
    rw [← String.toList_ofList (l := first), Option.some.inj hblank]
    rfl
  cases rest with
  | nil => exact hnonempty (String.toList_eq_nil_iff.mp (Path.eq_nil_of_slashPieces hslash))
  | cons second more =>
    rw [(Path.isAbsolute_iff root).mpr ⟨second, more, hslash⟩] at hrelative
    cases hrelative

theorem base?_of_absolute (h : d.Leads root R) (habsolute : root.isAbsolute = true) :
    ∃ base, base? d root = some base ∧ d.Leads base R ∧ steps base = steps root := by
  have hpassable := isPassable_of_locate h.located
  have hsum := Path.sum_pieces root
  have hsize := ((Disk.checkText_ok_iff root).mp h.check).2.2
  have hway := h.way
  have hplace := h.place
  obtain ⟨second, more, hslash⟩ := (Path.isAbsolute_iff root).mp habsolute
  have hpieces : Disk.pieces root = "" :: (second :: more).map String.ofList := by
    rw [Disk.pieces, hslash]
    rfl
  have hslashSize : sizeToSlash ⟨"/"⟩ = 1 := by decide
  have hblank : ("" : String).utf8ByteSize = 0 := by decide
  rw [Path.way, habsolute, if_pos rfl, hpieces] at hway
  rw [Path.placeFrom, habsolute, if_pos rfl, hpieces] at hplace
  rw [hpieces] at hpassable
  rw [hpieces, List.map_cons, List.sum_cons, hblank] at hsum
  rw [hplace, base?, habsolute, if_pos rfl, hpieces, List.drop_succ_cons, List.drop_zero]
  obtain ⟨base, hfold, hleads, hbase⟩ := foldlM_follow_of_way
    (leads_top (hway [] List.mem_cons_self)) (by decide) (List.forall_mem_cons.mp hpassable).2
    (by omega) fun m hm => hway m (List.mem_cons_of_mem _ hm)
  refine ⟨base, hfold, hleads, ?_⟩
  rw [steps_eq root, habsolute, if_pos rfl, hslash, steps, hbase, map_toList_ofList, List.filter_append,
    filter_namedComponents]
  rfl

theorem base?_of_relative (h : d.Leads root R) (hrelative : root.isAbsolute = false)
    (hkeeps : ¬ LosesWay root) :
    ∃ base, base? d root = some base ∧ d.Leads base R ∧ steps base = steps root := by
  have hpassable := isPassable_of_locate h.located
  have hsum := Path.sum_pieces root
  have hsize := ((Disk.checkText_ok_iff root).mp h.check).2.2
  have hway := h.way
  have hplace := h.place
  have hhead := head?_pieces_ne_blank hrelative h.nonempty
  obtain ⟨k, rest, hpieces, hrest⟩ := exists_dots (Disk.pieces root)
  rw [hpieces] at hpassable hsum
  rw [Path.way, hrelative, if_neg Bool.false_ne_true, hpieces] at hway
  rw [Path.placeFrom, hrelative, if_neg Bool.false_ne_true, hpieces, foldl_advance_dots] at hplace
  rw [hplace, base?, hrelative, if_neg Bool.false_ne_true, steps_of_dots hrelative hpieces, hpieces,
    foldlM_follow_dots]
  have hstart := hway d.here (Path.mem_wayAlong_start _ _)
  have hahead (m : Location) (hm : m ∈ Path.wayAlong d.here rest) : d.kind? m = some .directory :=
    hway m (mem_wayAlong_dots k hm)
  cases rest with
  | nil =>
    exact ⟨⟨"."⟩, rfl, leads_of_piece ⟨by decide, by decide, by decide⟩ (by decide) (by decide) hstart hstart,
      rfl⟩
  | cons first more =>
    -- the dots add nothing, so the first piece that is no dot is the base to start with
    have hdot : first ≠ "." := fun heq => hrest (congrArg some heq)
    have hempty : first ≠ "" := by
      rintro rfl
      cases k with
      | zero => exact hhead (by rw [hpieces]; rfl)
      | succ k => exact hkeeps ⟨k, more, hpieces⟩
    obtain ⟨hfirst, hmore⟩ := List.forall_mem_cons.mp fun piece hpiece =>
      hpassable piece (List.mem_append_right _ hpiece)
    rw [List.map_append, List.sum_append, List.map_cons, List.sum_cons] at hsum
    have hfirstSize : sizeToSlash ⟨first⟩ ≤ first.utf8ByteSize + 1 := sizeToSlash_le ⟨first⟩
    have hleads := leads_of_piece hfirst hempty (by omega) hstart
      (hahead _ (List.mem_cons_of_mem _ (Path.mem_wayAlong_start _ more)))
    have hcomponents := Path.components_piece hfirst.noSlash hdot
    have happart : .here ∉ (⟨first⟩ : Path).components := by
      rw [hcomponents]
      exact Path.here_not_mem_namedComponents _
    obtain ⟨base, hfold, hleads', hbase⟩ := foldlM_follow_of_way hleads happart hmore (by omega)
      fun m hm => hahead m (List.mem_cons_of_mem _ hm)
    refine ⟨base, ?_, hleads', ?_⟩
    · rw [← inside_here first] at hleads
      rw [List.foldlM_cons, follow_of_leads hleads, inside_here]
      exact hfold
    · rw [steps, hbase, hcomponents, ← Path.namedComponents_append, filter_namedComponents]
      rfl

/-- The paths of the files start with the path of the directory, unless that loses its way. -/
theorem base?_of_leads (h : d.Leads root R) (hkeeps : ¬ LosesWay root) :
    ∃ base, base? d root = some base ∧ d.Leads base R ∧ steps base = steps root := by
  cases hrelative : root.isAbsolute with
  | true => exact base?_of_absolute h hrelative
  | false => exact base?_of_relative h hrelative hkeeps

end Rulebook.Discovery
