import Rulebook.Proofs.Disk.Directories
import Rulebook.Proofs.Disk.Steps

/-!
# Directories that can be made

A path whose way is free of files can be made a directory, with those above it, and what appears is
its way. Nothing is done to a path that is that of a directory already.
-/

namespace Rulebook.Disk

set_option autoImplicit false

variable {d d' d'' : Disk} {p above : Path} {l m : Location}

/-! ## Following a path that is free -/

theorem follow_free {piece : String} (hl : d.kind? l = some .directory)
    (hshort : isTooLong piece = false) :
    d.follow l piece =
      if (d.kind? (l.advance piece)).isSome then .ok (l.advance piece) else .error .missing := by
  split
  · rename_i hthere
    exact (follow_ok_iff l _ piece).mpr ⟨hl, rfl, hshort, hthere⟩
  · rename_i hfree
    have hthere : (d.kind? l).isSome := by rw [hl]; rfl
    unfold follow
    rw [(checkDirectory_ok_iff l).mpr hl]
    simp only [bind, Except.bind]
    split
    · exact absurd hthere hfree
    · exact absurd hthere hfree
    · exact absurd (kind?_dropLast l hthere) hfree
    · rename_i hempty hhere hup
      rw [Location.advance_of_name l hempty hhere hup, kind?_isSome] at hfree
      rw [hshort, if_neg Bool.false_ne_true, if_neg hfree]
      rfl

theorem foldlM_follow_missing {pieces : List String}
    (hshort : ∀ piece ∈ pieces, isTooLong piece = false) (hstart : d.kind? l = some .directory)
    (hclear : ∀ m ∈ Path.wayAlong l pieces, ∀ content, d.kind? m ≠ some (.file content))
    (hnot : ¬ ∀ m ∈ Path.wayAlong l pieces, d.kind? m = some .directory) :
    pieces.foldlM d.follow l = .error .missing := by
  induction pieces generalizing l with
  | nil =>
    refine absurd (fun m hm => ?_) hnot
    rw [List.mem_singleton.mp hm]
    exact hstart
  | cons piece rest ih =>
    rw [List.foldlM_cons, follow_free hstart (hshort piece List.mem_cons_self)]
    have hclear' : ∀ m ∈ Path.wayAlong (l.advance piece) rest, ∀ content,
        d.kind? m ≠ some (.file content) := fun m hm => hclear m (List.mem_cons_of_mem _ hm)
    cases hkind : d.kind? (l.advance piece) with
    | none => rfl
    | some kind =>
      cases kind with
      | file content => exact absurd hkind (hclear' _ (Path.mem_wayAlong_start _ rest) content)
      | directory =>
        refine ih (fun other hother => hshort other (List.mem_cons_of_mem _ hother)) hkind hclear'
          fun hall => hnot fun m hm => ?_
        rcases List.mem_cons.mp hm with rfl | hm
        · exact hstart
        · exact hall m hm

/-! ## Paths that are free -/

/-- Nothing stands in the way of making the path a directory. -/
structure Open (d : Disk) (p : Path) : Prop where
  check : checkText p = .ok ()
  short : ∀ piece ∈ pieces p, isTooLong piece = false
  start : d.kind? (d.start p) = some .directory
  clear : ∀ m ∈ p.way d.here, ∀ content, d.kind? m ≠ some (.file content)

namespace Open

theorem parent (h : d.Open p) (habove : p.parent? = some above) (hne : above.text ≠ "") :
    d.Open above := by
  obtain ⟨hnul, -, hlong⟩ := (checkText_ok_iff p).mp h.check
  obtain ⟨rest, hrest⟩ := Path.text_parent habove hne
  have htext : p.text = above.text ++ String.ofList rest := by
    rw [← String.toList_inj, String.toList_append, String.toList_ofList, hrest]
  constructor
  · refine (checkText_ok_iff above).mpr ⟨fun hmem => hnul ?_, hne, ?_⟩
    · rw [← hrest]
      exact List.mem_append_left _ hmem
    · rw [htext, String.utf8ByteSize_append] at hlong
      exact Nat.le_trans (Nat.le_add_right _ _) hlong
  · intro piece hpiece
    rcases Path.mem_pieces_parent habove hne hpiece with hpiece | rfl
    · exact h.short piece hpiece
    · decide
  · have hstart : d.start above = d.start p := Path.startFrom_parent d.here habove hne
    rw [hstart]
    exact h.start
  · exact fun m hm => h.clear m (Path.way_parent habove hne hm)

end Open

/-! ## Making a directory -/

theorem target_of_kept {front : List String} {last : String} (hcheck : checkText p = .ok ())
    (hkept : ((pieces p).reverse.dropWhile (·.isEmpty)).reverse = front ++ [last])
    (hfollow : front.foldlM d.follow (d.start p) = .ok l) (hl : d.kind? l = some .directory) :
    d.target p = .ok (if last = "." ∨ last = ".." then none
      else some ⟨l, last, (front ++ [last]).length < (pieces p).length⟩) := by
  simp only [target, hcheck, hkept, List.dropLast_concat, List.getLast?_concat, hfollow,
    (checkDirectory_ok_iff l).mpr hl, bind, Except.bind]
  split
  · rename_i heq
    cases heq
  · rename_i heq
    cases heq
    rfl
  · rename_i heq
    cases heq
    rfl
  · rename_i name hhere hup heq
    cases heq
    rw [if_neg (not_or.mpr ⟨hhere, hup⟩)]
    rfl

/-- Of a directory nothing is made. -/
theorem makeDirectory_of_leads (h : d.Leads p l) : d.makeDirectory p = .error .taken := by
  obtain ⟨slashes, -, hpieces⟩ :=
    mem_of_dropWhile_reverse (p := fun piece : String => piece.isEmpty) (pieces p)
  generalize hkept : ((pieces p).reverse.dropWhile (·.isEmpty)).reverse = kept at hpieces
  have hshort := h.short
  have hway : ∀ m ∈ Path.wayAlong (d.start p) (pieces p), d.kind? m = some .directory := h.way
  rw [hpieces] at hshort hway
  have hdirectories : ∀ m ∈ Path.wayAlong (d.start p) kept, d.kind? m = some .directory :=
    fun m hm => hway m (Path.wayAlong_front _ kept slashes m hm)
  rw [makeDirectory]
  rcases kept.eq_nil_or_concat' with rfl | ⟨front, last, rfl⟩
  · have hstart := (checkDirectory_ok_iff _).mpr (hdirectories _ (Path.mem_wayAlong_start _ _))
    have htarget : d.target p = .ok none := by
      simp [target, h.check, hkept, hstart, bind, Except.bind, pure, Except.pure]
    rw [htarget]
    rfl
  · have hfront : ∀ m ∈ Path.wayAlong (d.start p) front, d.kind? m = some .directory :=
      fun m hm => hdirectories m (Path.wayAlong_front _ front [last] m hm)
    have hfollow := foldlM_follow_of_way (l := d.start p)
      (fun piece hpiece => hshort piece (by simp [hpiece])) hfront
    rw [target_of_kept h.check hkept hfollow (hfront _ (Path.end_mem_wayAlong _ _))]
    split
    · rfl
    · rename_i hstep
      obtain ⟨hhere, hup⟩ := not_or.mp hstep
      have hempty : last ≠ "" := by
        rintro rfl
        cases not_of_dropWhile_reverse hkept
      have hlast := hdirectories _ (Path.end_mem_wayAlong _ _)
      rw [List.foldl_append, List.foldl_cons, List.foldl_nil,
        Location.advance_of_name _ hempty hhere hup] at hlast
      have hthere : (d.entry? (front.foldl Location.advance (d.start p) ++ [last])).isSome := by
        rw [← kind?_isSome, hlast]
        rfl
      simp [bind, Except.bind, hshort last (by simp), Target.location, hthere, throw, throwThe,
        MonadExceptOf.throw]

theorem settle_of_leads (h : d.Leads p l) : makeDirectories.settle p d = (.ok (), d) := by
  rw [makeDirectories.settle, makeDirectory_of_leads h]
  dsimp only
  rw [if_pos ((isDirectory_iff p).mpr ⟨l, h⟩)]

theorem makeDirectories_of_leads (fuel : Nat) (h : d.Leads p l) :
    makeDirectories (fuel + 1) p d = (.ok (), d) := by
  have hsome : p.text.isEmpty = false := by
    rw [← Bool.not_eq_true, String.isEmpty_iff]
    exact h.nonempty
  rw [makeDirectories, hsome, makeDirectory_of_leads h]
  exact settle_of_leads h

/-! ## Filling a way -/

/-- The view changes on the way of a path, where there are directories now. -/
structure Fills (d d' : Disk) (p : Path) : Prop where
  here : d'.here = d.here
  view : ∀ m, d'.kind? m = if m ∈ p.way d.here then some .directory else d.kind? m
  wellFormed : d'.WellFormed

namespace Fills

theorem of_way (hd : d.WellFormed) (h : ∀ m ∈ p.way d.here, d.kind? m = some .directory) :
    d.Fills d p := by
  refine ⟨rfl, fun m => ?_, hd⟩
  split
  · rename_i hm
    exact h m hm
  · rfl

theorem directory (h : d.Fills d' p) (hm : d.kind? m = some .directory) :
    d'.kind? m = some .directory := by
  rw [h.view]
  split
  · rfl
  · exact hm

theorem opened {q : Path} (h : d.Fills d' p) (hq : d.Open q) : d'.Open q := by
  have hstart : d'.start q = d.start q := by rw [start, start, h.here]
  constructor
  · exact hq.check
  · exact hq.short
  · rw [hstart]
    exact h.directory hq.start
  · intro m hm content
    rw [h.here] at hm
    rw [h.view]
    split
    · rintro ⟨⟩
    · exact hq.clear m hm content

theorem leads (h : d.Fills d' p) (hp : d.Open p) : d'.Leads p (p.placeFrom d'.here) := by
  refine leads_of_way hp.check hp.short fun m hm => ?_
  rw [h.here] at hm
  rw [h.view, if_pos hm]

/-- Filling the way to a parent and then the whole way is filling the whole way. -/
theorem of_parent (h : d.Fills d' above) (h' : d'.Fills d'' p)
    (hway : ∀ m ∈ above.way d.here, m ∈ p.way d.here) : d.Fills d'' p := by
  refine ⟨h'.here.trans h.here, fun m => ?_, h'.wellFormed⟩
  rw [h'.view, h.view, h.here]
  by_cases hm : m ∈ p.way d.here
  · rw [if_pos hm, if_pos hm]
  · rw [if_neg hm, if_neg hm, if_neg fun habove => hm (hway m habove)]

end Fills

section Last

/-! The last piece of a path is a step, and the way up to it may be there or not. -/

variable {front : List (List Char)} {last : List Char}
  (hpieces : Path.slashPieces p.text.toList = front ++ [last]) (hlast : Path.isNoise last = false)

include hpieces

theorem pieces_of_ends : pieces p = front.map String.ofList ++ [String.ofList last] := by
  rw [pieces, hpieces, List.map_append]
  rfl

theorem placeFrom_of_ends : p.placeFrom d.here =
    ((front.map String.ofList).foldl Location.advance (d.start p)).advance (String.ofList last) := by
  rw [Path.placeFrom, pieces_of_ends hpieces, List.foldl_append]
  rfl

theorem mem_way_of_ends : m ∈ p.way d.here ↔
    m ∈ Path.wayAlong (d.start p) (front.map String.ofList) ∨ m = p.placeFrom d.here := by
  constructor
  · intro hm
    rw [Path.way, pieces_of_ends hpieces] at hm
    rcases Path.mem_wayAlong_append _ _ _ m hm with hm | hm
    · exact .inl hm
    · rcases List.mem_cons.mp hm with rfl | hm
      · exact .inl (Path.end_mem_wayAlong _ _)
      · rw [placeFrom_of_ends hpieces]
        exact .inr (List.mem_singleton.mp hm)
  · rintro (hm | rfl)
    · rw [Path.way, pieces_of_ends hpieces]
      exact Path.wayAlong_front _ _ _ m hm
    · exact Path.end_mem_wayAlong _ _

include hlast

theorem kept_of_ends : ((pieces p).reverse.dropWhile (·.isEmpty)).reverse =
    front.map String.ofList ++ [String.ofList last] := by
  have hsome : (String.ofList last).isEmpty = false := by
    rw [← Bool.not_eq_true, String.isEmpty_iff]
    rcases Path.namedComponents_singleton hlast with ⟨rfl, -⟩ | ⟨hempty, -⟩
    · decide
    · exact hempty
  rw [pieces_of_ends hpieces]
  simp [hsome]

theorem makeDirectory_missing (h : d.Open p)
    (hnot : ¬ ∀ m ∈ Path.wayAlong (d.start p) (front.map String.ofList),
      d.kind? m = some .directory) : d.makeDirectory p = .error .missing := by
  have hfront := pieces_of_ends hpieces
  have hfollow : (front.map String.ofList).foldlM d.follow (d.start p) = .error .missing := by
    refine foldlM_follow_missing (fun piece hpiece => h.short piece ?_) h.start
      (fun m hm => h.clear m ?_) hnot
    · rw [hfront]
      exact List.mem_append_left _ hpiece
    · rw [Path.way, hfront]
      exact Path.wayAlong_front _ _ _ m hm
  simp only [makeDirectory, target, h.check, kept_of_ends hpieces hlast, List.dropLast_concat,
    hfollow, bind, Except.bind]

theorem makeDirectory_fills (h : d.Open p) (hd : d.WellFormed)
    (hway : ∀ m ∈ Path.wayAlong (d.start p) (front.map String.ofList),
      d.kind? m = some .directory) (hnot : d.kind? (p.placeFrom d.here) ≠ some .directory) :
    ∃ d', d.makeDirectory p = .ok d' ∧ d.Fills d' p := by
  have hfront := pieces_of_ends hpieces
  have hmem : String.ofList last ∈ pieces p := by simp [hfront]
  have hfollow := foldlM_follow_of_way (l := d.start p)
    (fun piece hpiece => h.short piece (by rw [hfront]; exact List.mem_append_left _ hpiece)) hway
  have hparent := hway _ (Path.end_mem_wayAlong _ _)
  have htarget := target_of_kept h.check (kept_of_ends hpieces hlast) hfollow hparent
  have hplace := placeFrom_of_ends (d := d) hpieces
  have hinside := fun m => mem_way_of_ends (d := d) (m := m) hpieces
  generalize (front.map String.ofList).foldl Location.advance (d.start p) = parent
    at hparent htarget hplace
  have hfree : d.kind? (p.placeFrom d.here) = none := by
    cases hkind : d.kind? (p.placeFrom d.here) with
    | none => rfl
    | some kind =>
      cases kind with
      | directory => exact absurd hkind hnot
      | file content => exact absurd hkind (h.clear _ (Path.end_mem_wayAlong _ _) content)
  obtain ⟨hempty, hhere, hup⟩ : String.ofList last ≠ "" ∧ String.ofList last ≠ "." ∧
      String.ofList last ≠ ".." := by
    rcases Path.namedComponents_singleton hlast with ⟨rfl, -⟩ | ⟨hempty, hhere, hup, -⟩
    · -- a step up leads to what is there
      have hthere : (d.kind? (parent.advance "..")).isSome :=
        kind?_dropLast parent (by rw [hparent]; rfl)
      rw [hplace, show String.ofList ['.', '.'] = ".." from rfl] at hfree
      rw [hfree] at hthere
      cases hthere
    · exact ⟨hempty, hhere, hup⟩
  have hname : IsName (String.ofList last) :=
    ⟨⟨hempty, hhere, hup, Path.noSlash_of_mem_pieces hmem⟩,
      fun hnul => ((checkText_ok_iff p).mp h.check).1 (Path.mem_text_of_mem_pieces hmem hnul),
      h.short _ hmem⟩
  rw [Location.advance_of_name _ hempty hhere hup] at hplace
  rw [if_neg (not_or.mpr ⟨hhere, hup⟩)] at htarget
  have hentry : d.entry? (parent ++ [String.ofList last]) = none := by
    rw [← hplace, ← Option.isNone_iff_eq_none, ← Option.not_isSome, ← kind?_isSome, hfree]
    rfl
  have hwellFormed : (Entry.directory []).WellFormed := by decide
  have hsets := sets_put Entry.isLeaf_directory hwellFormed hname hparent
    (by rw [← hplace, hfree]; rintro ⟨⟩)
  refine ⟨_, ?_, hsets.here, fun m => ?_, hsets.wellFormed hd⟩
  · simp only [makeDirectory, htarget, bind, Except.bind, hname.short, Target.location, hentry]
    rfl
  · rw [hsets.view, ← hplace]
    by_cases hm : m = p.placeFrom d.here
    · rw [if_pos hm, if_pos ((hinside m).mpr (.inr hm))]
      rfl
    · rw [if_neg hm]
      split
      · rename_i hmway
        exact hway m (((hinside m).mp hmway).resolve_right hm)
      · rfl

/-- The way up to the last step is that to the parent. -/
theorem mem_way_parent_iff (habove : p.parent? = some above) (hne : above.text ≠ "") :
    m ∈ above.way d.here ↔ m ∈ Path.wayAlong (d.start p) (front.map String.ofList) := by
  rw [Path.mem_way_parent_iff habove hne, Path.mem_wayAlong_iff,
    (Path.steps_of_ends hpieces hlast).2]
  rfl

theorem settle_fills (h : d.Open p) (hd : d.WellFormed)
    (hway : ∀ m ∈ Path.wayAlong (d.start p) (front.map String.ofList),
      d.kind? m = some .directory) :
    ∃ d', makeDirectories.settle p d = (.ok (), d') ∧ d.Fills d' p := by
  by_cases hplace : d.kind? (p.placeFrom d.here) = some .directory
  · have hall : ∀ m ∈ p.way d.here, d.kind? m = some .directory := by
      intro m hm
      rcases (mem_way_of_ends hpieces).mp hm with hm | rfl
      · exact hway m hm
      · exact hplace
    exact ⟨d, settle_of_leads (leads_of_way h.check h.short hall), .of_way hd hall⟩
  · obtain ⟨d', hmake, hfills⟩ := makeDirectory_fills hpieces hlast h hd hway hplace
    refine ⟨d', ?_, hfills⟩
    rw [makeDirectories.settle, hmake]

end Last

theorem makeDirectories_of_way (fuel : Nat) (h : d.Open p) (hd : d.WellFormed)
    (hall : ∀ m ∈ p.way d.here, d.kind? m = some .directory) :
    ∃ d', makeDirectories (fuel + 1) p d = (.ok (), d') ∧ d.Fills d' p :=
  ⟨d, makeDirectories_of_leads fuel (leads_of_way h.check h.short hall), .of_way hd hall⟩

theorem makeDirectories_of_steps_eq_nil (fuel : Nat) (h : d.Open p) (hd : d.WellFormed)
    (hsteps : p.steps = []) :
    ∃ d', makeDirectories (fuel + 1) p d = (.ok (), d') ∧ d.Fills d' p := by
  apply makeDirectories_of_way fuel h hd
  intro m hm
  rw [Path.way_of_steps_eq_nil hsteps hm]
  exact h.start

/-- Where nothing stands in the way, a path is made a directory, with those above it. -/
theorem makeDirectories_fills {fuel : Nat} (h : d.Open p) (hends : p.Ends) (hd : d.WellFormed)
    (hfuel : p.steps.length ≤ fuel) :
    ∃ d', makeDirectories (fuel + 1) p d = (.ok (), d') ∧ d.Fills d' p := by
  induction fuel generalizing p with
  | zero =>
    exact makeDirectories_of_steps_eq_nil 0 h hd (List.length_eq_zero_iff.mp (Nat.le_zero.mp hfuel))
  | succ fuel ih =>
    rcases hends with hsteps | ⟨front, last, hpieces, hlast⟩
    · exact makeDirectories_of_steps_eq_nil _ h hd hsteps
    have hsome : p.text.isEmpty = false := by
      rw [← Bool.not_eq_true, String.isEmpty_iff]
      exact ((checkText_ok_iff p).mp h.check).2.1
    by_cases hfront : ∀ m ∈ Path.wayAlong (d.start p) (front.map String.ofList),
        d.kind? m = some .directory
    · by_cases hplace : d.kind? (p.placeFrom d.here) = some .directory
      · apply makeDirectories_of_way _ h hd
        intro m hm
        rcases (mem_way_of_ends hpieces).mp hm with hm | rfl
        · exact hfront m hm
        · exact hplace
      · obtain ⟨d', hmake, hfills⟩ := makeDirectory_fills hpieces hlast h hd hfront hplace
        refine ⟨d', ?_, hfills⟩
        rw [makeDirectories, hsome, hmake]
        rfl
    · obtain ⟨hne, hsteps⟩ := Path.steps_of_ends hpieces hlast
      have hlength : 2 ≤ p.steps.length := by
        by_contra hshort
        refine hfront fun m hm => ?_
        obtain ⟨others, hothers, rfl⟩ := Path.mem_wayAlong_iff.mp hm
        have hnil : Path.namedComponents front = [] := by
          rw [← hsteps, ← List.length_eq_zero_iff, List.length_dropLast]
          omega
        rw [hnil, List.prefix_nil] at hothers
        rw [hothers]
        exact h.start
      obtain ⟨above, habove, hnonempty⟩ := Path.exists_parent hlength
      obtain ⟨d₁, hrun, hfills⟩ := ih (h.parent habove hnonempty) (Path.ends_parent habove hnonempty)
        (by rw [Path.steps_parent habove hnonempty, List.length_dropLast]; omega)
      have hstart : d₁.start p = d.start p := by rw [start, start, hfills.here]
      obtain ⟨d₂, hsettle, hfills₂⟩ := settle_fills hpieces hlast (hfills.opened h)
        hfills.wellFormed (by
          rw [hstart]
          intro m hm
          rw [hfills.view, if_pos ((mem_way_parent_iff hpieces hlast habove hnonempty).mpr hm)])
      refine ⟨d₂, ?_, hfills.of_parent hfills₂ fun m hm => Path.way_parent habove hnonempty hm⟩
      rw [makeDirectories, hsome, makeDirectory_missing hpieces hlast h hfront]
      simp only [Bool.false_eq_true, if_false, habove, hrun]
      exact hsettle

/-! ## Where a path starts -/

theorem Aims.start {t : Target} (h : d.Aims p t) : d.kind? (d.start p) = some .directory := by
  obtain ⟨front, slashes, -, -, hfollow⟩ := h.split
  cases front with
  | nil =>
    have hparent : d.start p = t.parent := Except.ok.inj hfollow
    rw [hparent]
    exact h.parent
  | cons piece rest =>
    exact ((follow_ok_iff _ _ _).mp ((foldlM_follow_cons_iff _ _ _ _).mp hfollow).1).1

theorem Leads.start (h : d.Leads p l) : d.kind? (d.start p) = some .directory :=
  h.way _ (Path.mem_wayAlong_start _ _)

theorem settle_start (h : makeDirectories.settle p d = (.ok (), d')) :
    d.kind? (d.start p) = some .directory := by
  rw [makeDirectories.settle] at h
  split at h
  · rename_i hmake
    obtain ⟨t, haims, -⟩ := makeDirectory_ok hmake
    exact haims.start
  · split at h
    · rename_i hdirectory
      obtain ⟨l, hleads⟩ := (isDirectory_iff p).mp hdirectory
      exact hleads.start
    · cases h

/-- Nothing is made of the empty path. -/
theorem makeDirectories_empty (fuel : Nat) (h : p.text = "") :
    (makeDirectories fuel p d).2 = d := by
  cases fuel with
  | zero => rfl
  | succ fuel => rw [makeDirectories, if_pos (String.isEmpty_iff.mpr h)]

/-- A path can be made a directory only from where it starts. -/
theorem makeDirectories_start {fuel : Nat} (h : makeDirectories fuel p d = (.ok (), d'))
    (hp : p.text ≠ "") : d.kind? (d.start p) = some .directory := by
  induction fuel generalizing p d' with
  | zero => cases h
  | succ fuel ih =>
    rw [makeDirectories] at h
    split at h
    · rename_i hempty
      exact absurd (String.isEmpty_iff.mp hempty) hp
    · split at h
      · rename_i hmake
        obtain ⟨t, haims, -⟩ := makeDirectory_ok hmake
        exact haims.start
      · split at h
        · cases h
        · rename_i above habove
          split at h
          · cases h
          · rename_i d₁ hrun
            by_cases hempty : above.text = ""
            · have hsame : d₁ = d := by
                rw [← makeDirectories_empty (d := d) fuel hempty, hrun]
              rw [hsame] at h
              exact settle_start h
            · have hstart : d.start above = d.start p := Path.startFrom_parent d.here habove hempty
              rw [← hstart]
              exact ih hrun hempty
      · exact settle_start h

/-! ## Where directories appear -/

theorem Aims.mem_way {t : Target} (h : d.Aims p t) : t.location ∈ p.way d.here := by
  obtain ⟨front, slashes, hpieces, -, hfollow⟩ := h.split
  have hplace : t.location = (front ++ [t.name]).foldl Location.advance (d.start p) := by
    rw [List.foldl_append, ← foldlM_follow_place hfollow, List.foldl_cons, List.foldl_nil,
      Location.advance_of_name _ h.name.nonempty h.name.notHere h.name.notUp]
    rfl
  have hfront : pieces p = (front ++ [t.name]) ++ slashes := by simp [hpieces]
  rw [Path.way, hfront, hplace]
  exact Path.wayAlong_front _ _ _ _ (Path.end_mem_wayAlong _ _)

theorem makeDirectory_off (h : d.makeDirectory p = .ok d') (hm : m ∉ p.way d.here) :
    d'.kind? m = d.kind? m := by
  obtain ⟨t, haims, -, -, hsets⟩ := makeDirectory_ok h
  rw [hsets.view, if_neg]
  rintro rfl
  exact hm haims.mem_way

theorem settle_off (hm : m ∉ p.way d.here) :
    (makeDirectories.settle p d).2.kind? m = d.kind? m := by
  rw [makeDirectories.settle]
  split
  · rename_i hmake
    exact makeDirectory_off hmake hm
  · split <;> rfl

/-- Directories appear only on the way, whether or not they are made to the end. -/
theorem makeDirectories_off (fuel : Nat) (hd : d.WellFormed) (hm : m ∉ p.way d.here) :
    (makeDirectories fuel p d).2.kind? m = d.kind? m := by
  induction fuel generalizing p with
  | zero => rfl
  | succ fuel ih =>
    rw [makeDirectories]
    split
    · rfl
    · split
      · rename_i hmake
        exact makeDirectory_off hmake hm
      · split
        · rfl
        · rename_i above habove
          have hparent : (makeDirectories fuel above d).2.kind? m = d.kind? m := by
            by_cases hempty : above.text = ""
            · rw [makeDirectories_empty fuel hempty]
            · exact ih fun hway => hm (Path.way_parent habove hempty hway)
          have hhere := (makeDirectories_gains fuel above hd).1.here
          split
          · rename_i hrun
            rw [hrun] at hparent
            exact hparent
          · rename_i hrun
            rw [hrun] at hparent hhere
            rw [← hhere] at hm
            rw [settle_off hm, hparent]
      · exact settle_off hm

end Rulebook.Disk
