import Rulebook.Proofs.Corpus.Start
import Rulebook.Proofs.Disk.Listing
import Rulebook.Proofs.Disk.Order

/-!
# Which card files are found

Below a directory exactly the card files are found, each once, by rising paths, in whatever order the
directories are listed. A path that is too long hides its file, and a directory whose path loses its way
seems to hold nothing.
-/

namespace Rulebook.Discovery

set_option autoImplicit false

variable {d : Disk} {root base : Path} {R l : Location} {name : String}

/-! ## The paths of the files -/

/-- A name adds one component to a path, and the dot of the current directory goes. -/
theorem steps_inside (hname : IsComponent name) (base : Path) :
    steps (inside base name) = steps base ++ [.name name] := by
  rw [inside]
  split
  · rename_i hhere
    rw [steps, steps, hhere, Path.components_name hname]
    rfl
  · rw [steps, steps, Path.components_join hname, List.filter_append]
    rfl

theorem steps_pathAt (hnames : ∀ name ∈ l, IsComponent name) (base : Path) :
    steps (pathAt base l) = steps base ++ l.map .name := by
  induction l using List.reverseRecOn with
  | nil => exact (List.append_nil _).symm
  | append_singleton front name ih =>
    rw [pathAt_concat, steps_inside (hnames name (by simp)),
      ih fun other hother => hnames other (List.mem_append_left _ hother), List.map_append,
      List.append_assoc]
    rfl

theorem text_inside (hslash : '/' ∉ name.toList) (hbase : base.text ≠ "") :
    (inside base name).text = name ∨
      ∃ front, (inside base name).text.toList = front ++ '/' :: name.toList := by
  rw [inside]
  split
  · exact .inl rfl
  · rcases Path.text_join hslash hbase with ⟨front, hfront, hjoin⟩ | hjoin
    · refine .inr ⟨front, ?_⟩
      rw [hjoin, String.toList_append, hfront, List.append_assoc]
      rfl
    · refine .inr ⟨base.text.toList, ?_⟩
      rw [hjoin, String.toList_append, String.toList_append, List.append_assoc]
      rfl

def EndsLikeCard (name : String) : Prop := ∃ ending ∈ endings, ending.toList <:+ name.toList

/-- Whether a path is that of a card is told by its last name. -/
theorem isCardPath_inside_iff (hslash : '/' ∉ name.toList) (hbase : base.text ≠ "") :
    isCardPath (inside base name) = true ↔ EndsLikeCard name := by
  have hendings : ∀ ending ∈ endings, '/' ∉ ending.toList := by decide
  simp only [isCardPath, List.any_eq_true, List.isSuffixOf_iff_suffix, EndsLikeCard]
  refine exists_congr fun ending => and_congr_right fun hending => ?_
  have hnone := hendings ending hending
  rcases text_inside hslash hbase with htext | ⟨front, htext⟩
  · rw [htext]
  · have hwhole : '/' :: name.toList <:+ (inside base name).text.toList := ⟨front, htext.symm⟩
    constructor
    · intro hsuffix
      rcases List.suffix_or_suffix_of_suffix hsuffix hwhole with hless | hmore
      · rcases List.suffix_cons_iff.mp hless with heq | hless
        · rw [heq] at hnone
          exact absurd List.mem_cons_self hnone
        · exact hless
      · exact absurd (hmore.subset List.mem_cons_self) hnone
    · intro hsuffix
      exact (hsuffix.trans (List.suffix_cons _ _)).trans hwhole

/-- A name alone is looked up in the current directory. -/
theorem isFile_name_iff (hhere : d.kind? d.here = some .directory) (hname : IsName name) :
    d.isFile ⟨name⟩ = true ↔
      name.utf8ByteSize ≤ Disk.longestPath ∧
        ∃ content, d.kind? (d.here ++ [name]) = some (.file content) := by
  have hadvance := Location.advance_of_name d.here hname.nonempty hname.notHere hname.notUp
  have hpieces := pieces_of_noSlash hname.noSlash
  have hstart : d.start ⟨name⟩ = d.here := by
    rw [Disk.start, Path.isAbsolute_of_noSlash hname.noSlash, if_neg Bool.false_ne_true]
  rw [Disk.isFile_iff]
  constructor
  · rintro ⟨m, content, hlocate, hfile⟩
    have hcheck := ((Disk.locate_ok_iff _ m).mp hlocate).1
    rw [Disk.locate_place hlocate, Path.placeFrom, hpieces, Path.isAbsolute_of_noSlash hname.noSlash] at hfile
    exact ⟨((Disk.checkText_ok_iff _).mp hcheck).2.2, content, hadvance ▸ hfile⟩
  · rintro ⟨hfits, content, hfile⟩
    refine ⟨d.here ++ [name], content, ?_, hfile⟩
    refine (Disk.locate_ok_iff _ _).mpr
      ⟨(Disk.checkText_ok_iff _).mpr ⟨hname.noNul, hname.nonempty, hfits⟩, ?_⟩
    rw [hpieces, hstart, Disk.foldlM_follow_cons_iff, hadvance]
    exact ⟨(Disk.follow_ok_iff _ _ _).mpr ⟨hhere, hadvance.symm, hname.short, by rw [hfile]; rfl⟩, rfl⟩

theorem isFile_inside_iff (h : d.Leads base R) (hname : IsName name) :
    d.isFile (inside base name) = true ↔
      (inside base name).text.utf8ByteSize ≤ Disk.longestPath ∧
        ∃ content, d.kind? (R ++ [name]) = some (.file content) := by
  rw [inside]
  split
  · rename_i hhere
    obtain rfl : R = d.here := by rw [h.place, placeFrom_here hhere]
    exact isFile_name_iff h.directory hname
  · exact Disk.isFile_join_iff h hname

theorem leads_inside (h : d.Leads base R) (hname : IsName name)
    (hfits : (inside base name).text.utf8ByteSize ≤ Disk.longestPath)
    (hnext : d.kind? (R ++ [name]) = some .directory) : d.Leads (inside base name) (R ++ [name]) := by
  have hadvance := Location.advance_of_name R hname.nonempty hname.notHere hname.notUp
  rw [← hadvance] at hnext ⊢
  rw [inside] at hfits ⊢
  split
  · rename_i hhere
    rw [if_pos hhere] at hfits
    obtain rfl : R = d.here := by rw [h.place, placeFrom_here hhere]
    exact leads_of_piece ⟨hname.noSlash, hname.noNul, hname.short⟩ hname.nonempty hfits h.directory hnext
  · rename_i hhere
    rw [if_neg hhere] at hfits
    exact h.join_piece hname.noSlash hname.noNul hname.short hfits hnext

/-! ## What is found -/

/-- A card file at a location in a directory. -/
structure IsCardFile (d : Disk) (R l : Location) : Prop where
  file : ∃ content, d.kind? (R ++ l) = some (.file content)
  ending : ∃ front name, l = front ++ [name] ∧ EndsLikeCard name

/-- Every directory in a directory can be listed by its path. -/
def Listable (d : Disk) (R : Location) (base : Path) : Prop :=
  ∀ l, d.kind? (R ++ l) = some .directory → (pathAt base l).text.utf8ByteSize ≤ Disk.longestPath

theorem leads_pathAt (hd : d.WellFormed) (h : d.Leads base R) (hlistable : Listable d R base)
    (hl : d.kind? (R ++ l) = some .directory) : d.Leads (pathAt base l) (R ++ l) := by
  induction l using List.reverseRecOn with
  | nil =>
    rw [List.append_nil]
    exact h
  | append_singleton front name ih =>
    have hfits := hlistable _ hl
    rw [← List.append_assoc] at hl ⊢
    have hname := Disk.isName_of_isSome hd (by rw [hl]; rfl)
    rw [pathAt_concat] at hfits ⊢
    exact leads_inside (ih (Disk.kind?_parent (by rw [hl]; rfl))) hname hfits hl

theorem isCardFile_concat_iff {front : Location} :
    IsCardFile d R (front ++ [name]) ↔
      (∃ content, d.kind? (R ++ (front ++ [name])) = some (.file content)) ∧ EndsLikeCard name := by
  constructor
  · rintro ⟨hfile, other, last, heq, hending⟩
    obtain rfl := List.singleton_inj.mp (List.append_inj_right' heq rfl)
    exact ⟨hfile, hending⟩
  · rintro ⟨hfile, hending⟩
    exact ⟨hfile, front, name, rfl, hending⟩

theorem mem_cardFiles_iff_isCardFile {entries : List (String × Entry)} (hd : d.WellFormed)
    (h : d.Leads base R) (hlistable : Listable d R base) (hentry : d.entry? R = some (.directory entries)) :
    l ∈ cardFiles d base entries ↔
      IsCardFile d R l ∧ (pathAt base l).text.utf8ByteSize ≤ Disk.longestPath := by
  rw [mem_cardFiles_iff hd hentry]
  rcases l.eq_nil_or_concat' with rfl | ⟨front, name, rfl⟩
  · refine iff_of_false ?_ ?_
    · rintro ⟨-, content, hfile⟩
      rw [List.append_nil, h.directory] at hfile
      cases hfile
    · rintro ⟨⟨-, front, name, hnil, -⟩, -⟩
      exact absurd hnil.symm (by simp)
  · rw [isCardFile_concat_iff]
    -- a file is seen by its path if the directory around it is
    have hseen {content : ByteArray} (hfile : d.kind? (R ++ (front ++ [name])) = some (.file content)) :
        (isCardPath (pathAt base (front ++ [name])) = true ↔ EndsLikeCard name) ∧
          (d.isFile (pathAt base (front ++ [name])) = true ↔
            (pathAt base (front ++ [name])).text.utf8ByteSize ≤ Disk.longestPath) := by
      rw [← List.append_assoc] at hfile
      have hname := Disk.isName_of_isSome hd (by rw [hfile]; rfl)
      have hleads := leads_pathAt hd h hlistable (Disk.kind?_parent (by rw [hfile]; rfl))
      rw [pathAt_concat, isCardPath_inside_iff hname.noSlash hleads.nonempty, isFile_inside_iff hleads hname]
      exact ⟨Iff.rfl, and_iff_left ⟨content, hfile⟩⟩
    constructor
    · rintro ⟨⟨hcard, hfits⟩, content, hfile⟩
      obtain ⟨hcardIff, hfitsIff⟩ := hseen hfile
      exact ⟨⟨⟨content, hfile⟩, hcardIff.mp hcard⟩, hfitsIff.mp hfits⟩
    · rintro ⟨⟨⟨content, hfile⟩, hcard⟩, hfits⟩
      obtain ⟨hcardIff, hfitsIff⟩ := hseen hfile
      exact ⟨⟨hcardIff.mpr hcard, hfitsIff.mpr hfits⟩, content, hfile⟩

/-- Files at different places have paths with different components. -/
theorem nodup_components {entries : List (String × Entry)} (hd : d.WellFormed)
    (hentry : d.entry? R = some (.directory entries)) (base : Path) :
    (((cardFiles d base entries).map (pathAt base)).map Path.components).Nodup := by
  have hsteps {k : Location} (hk : k ∈ cardFiles d base entries) :
      steps (pathAt base k) = steps base ++ k.map .name :=
    steps_pathAt (fun name hname => ((cardFile_spec hd hentry hk).1 name hname).toIsComponent) base
  rw [List.map_map]
  refine List.Nodup.map_on (fun l hl m hm heq => ?_) (nodup_cardFiles hd hentry)
  have heq : (pathAt base l).components = (pathAt base m).components := heq
  have hsame : steps (pathAt base l) = steps (pathAt base m) := by rw [steps, steps, heq]
  rw [hsteps hl, hsteps hm] at hsame
  exact List.map_injective_iff.mpr (fun _ _ => Path.Component.name.inj) (List.append_cancel_left hsame)

theorem cardPaths_eq {entries : List (String × Entry)} (h : d.Leads root R)
    (hentry : d.entry? R = some (.directory entries)) (hbase : base? d root = some base) :
    cardPaths d root = .ok (inOrder ((cardFiles d base entries).map (pathAt base))) := by
  rw [cardPaths, (Disk.fetch_ok_iff root _).mpr ⟨R, h.located, hentry⟩]
  simp only [hbase, filter_filesIn]

/-- What is found in a directory, by paths that start with that of the directory. -/
structure Finds (d : Disk) (R : Location) (base : Path) (paths : List Path) : Prop where
  rising : paths.Pairwise fun p q => p.before q = true
  found : ∀ p, p ∈ paths ↔
    ∃ l, IsCardFile d R l ∧ (pathAt base l).text.utf8ByteSize ≤ Disk.longestPath ∧ pathAt base l = p
  placed : ∀ l, IsCardFile d R l →
    steps (pathAt base l) = steps base ++ l.map .name ∧ (pathAt base l).placeFrom d.here = R ++ l

theorem finds_inOrder {entries : List (String × Entry)} (hd : d.WellFormed) (h : d.Leads base R)
    (hlistable : Listable d R base) (hentry : d.entry? R = some (.directory entries)) :
    Finds d R base (inOrder ((cardFiles d base entries).map (pathAt base))) where
  rising := Path.pairwise_before_mergeSort (nodup_components hd hentry base)
  found p := by
    rw [inOrder, List.mem_mergeSort, List.mem_map]
    simp only [mem_cardFiles_iff_isCardFile hd h hlistable hentry, and_assoc]
  placed l hl := by
    obtain ⟨content, hfile⟩ := hl.file
    rw [Disk.kind?_append hentry] at hfile
    have hnames := Entry.isName_of_isSome (Disk.wellFormed_entry hd hentry) (by rw [hfile]; rfl)
    have hcomponents := fun name hname => (hnames name hname).toIsComponent
    refine ⟨steps_pathAt hcomponents base, ?_⟩
    rw [(pathAt_spec hcomponents h.nonempty).2.1, h.place]

/-! ## The order of listings -/

theorem base?_congr {d' : Disk} (hhere : d'.here = d.here) (hview : ∀ l, d'.kind? l = d.kind? l)
    (root : Path) : base? d' root = base? d root := by
  have hfollow : follow d' = follow d := by
    funext base piece
    rw [follow, follow, Disk.contains_congr hhere hview]
  rw [base?, base?, hfollow]

theorem inOrder_perm {ps qs : List Path} (hdistinct : (ps.map Path.components).Nodup) (h : ps.Perm qs) :
    inOrder ps = inOrder qs := by
  refine Path.eq_of_pairwise_before (Path.pairwise_before_mergeSort hdistinct)
    (Path.pairwise_before_mergeSort ((h.map Path.components).nodup_iff.mp hdistinct)) fun p => ?_
  exact List.mem_mergeSort.trans (h.mem_iff.trans List.mem_mergeSort.symm)

theorem perm_cardFiles {d' : Disk} {entries others : List (String × Entry)} (hhere : d'.here = d.here)
    (hview : ∀ l, d'.kind? l = d.kind? l)
    (h : (Entry.directory entries).Relisted (.directory others)) (base : Path) :
    (cardFiles d base entries).Perm (cardFiles d' base others) := by
  have hfiles := h.perm_files
  rw [Entry.files, Entry.files] at hfiles
  rw [cardFiles, cardFiles]
  simp only [Disk.isFile_congr hhere hview]
  exact hfiles.filter _

/-- The same cards are found in the same order, however the directories of the disk are listed. -/
theorem cardPaths_relist {top : Entry} (hd : d.WellFormed) (h : d.Leads root R) (htop : d.top.Relisted top) :
    cardPaths (d.relist top) root = cardPaths d root := by
  have hview := Disk.kind?_relist hd htop
  have hhere : (d.relist top).here = d.here := rfl
  obtain ⟨entries, hentry⟩ := (Disk.kind?_eq_directory_iff R).mp h.directory
  obtain ⟨others, hother, hrelisted⟩ : ∃ others, Disk.entry? (d.relist top) R = some (.directory others) ∧
      (Entry.directory entries).Relisted (.directory others) := by
    obtain ⟨hnone, -⟩ | ⟨part, part', hpart, hother, hrelisted⟩ := Entry.at?_relisted R hd htop
    · exact absurd (hnone.symm.trans hentry) nofun
    · obtain rfl := Option.some.inj (hpart.symm.trans hentry)
      obtain ⟨-, others, rfl, -⟩ := hrelisted.exists_parts
      exact ⟨others, hother, hrelisted⟩
  have hleads : (d.relist top).Leads root R :=
    ⟨(Disk.locate_congr hhere hview root R).mpr h.located, (hview R).trans h.directory⟩
  have hsame := base?_congr hhere hview root
  cases hbase : base? d root with
  | none =>
    rw [hbase] at hsame
    rw [cardPaths, cardPaths, (Disk.fetch_ok_iff root _).mpr ⟨R, h.located, hentry⟩,
      (Disk.fetch_ok_iff root _).mpr ⟨R, hleads.located, hother⟩]
    simp only [hbase, hsame]
  | some base =>
    rw [cardPaths_eq h hentry hbase, cardPaths_eq hleads hother (hsame.trans hbase)]
    refine congrArg Except.ok (inOrder_perm (nodup_components hd hentry base) ?_).symm
    exact (perm_cardFiles hhere hview hrelisted base).map _

/-- In a directory exactly the card files are found whose paths are not too long, each once, by rising
paths, which are that of the directory with the names from there to the file. The order in which directories
are listed does not matter. Nothing is found if the path of the directory loses its way. -/
theorem cardPaths_finds (hd : d.WellFormed) (h : d.Leads root R) :
    (LosesWay root → cardPaths d root = .ok []) ∧
      (¬ LosesWay root → ∃ base, base? d root = some base ∧ d.Leads base R ∧ steps base = steps root ∧
        (Listable d R base → ∃ paths, cardPaths d root = .ok paths ∧ Finds d R base paths)) ∧
      ∀ top, d.top.Relisted top → cardPaths (d.relist top) root = cardPaths d root := by
  obtain ⟨entries, hentry⟩ := (Disk.kind?_eq_directory_iff R).mp h.directory
  refine ⟨fun hloses => ?_, fun hkeeps => ?_, fun top => cardPaths_relist hd h⟩
  · rw [cardPaths, (Disk.fetch_ok_iff root _).mpr ⟨R, h.located, hentry⟩]
    simp only [base?_of_losesWay hloses]
  · obtain ⟨base, hbase, hleads, hsteps⟩ := base?_of_leads h hkeeps
    refine ⟨base, hbase, hleads, hsteps, fun hlistable => ?_⟩
    exact ⟨_, cardPaths_eq h hentry hbase, finds_inOrder hd hleads hlistable hentry⟩

/-- The entries of a directory of rules: two card files, one of them in a directory, and a directory that is
called like one. -/
def shelfEntries : List (String × Entry) :=
  [("a", .directory [("z.yml", .file .empty)]), ("a.yaml", .file .empty), ("n.yaml", .directory [])]

def shelf : Disk := ⟨.directory [("r*", .directory shelfEntries)], []⟩

theorem leads_shelf : shelf.Leads ⟨"r*"⟩ ["r*"] := ⟨rfl, rfl⟩

theorem base?_shelf : base? shelf ⟨"r*"⟩ = some ⟨"r*"⟩ := rfl

theorem located_shelf : shelf.entry? ["r*"] = some (.directory shelfEntries) := rfl

theorem cardPaths_shelf : cardPaths shelf ⟨"r*"⟩ = .ok [⟨"r*/a/z.yml"⟩, ⟨"r*/a.yaml"⟩] := by
  have hfiles : (cardFiles shelf ⟨"r*"⟩ shelfEntries).map (pathAt ⟨"r*"⟩) =
      [⟨"r*/a/z.yml"⟩, ⟨"r*/a.yaml"⟩] := by decide +kernel
  rw [cardPaths_eq leads_shelf located_shelf base?_shelf, hfiles, inOrder,
    List.mergeSort_of_pairwise (by decide)]

theorem listable_shelf : Listable shelf ["r*"] ⟨"r*"⟩ := by
  intro l hl
  rw [Disk.kind?_append located_shelf] at hl
  cases l with
  | nil => decide
  | cons name rest =>
    rw [Entry.kind?_directory] at hl
    obtain ⟨part, hpart, hl⟩ := Option.bind_eq_some_iff.mp hl
    have hmem := Keyed.mem_of_find? hpart
    simp only [shelfEntries, List.mem_cons, List.not_mem_nil, or_false, Prod.mk.injEq] at hmem
    cases rest with
    | nil => obtain ⟨rfl, -⟩ | ⟨rfl, -⟩ | ⟨rfl, -⟩ := hmem <;> decide
    | cons below more =>
      -- no directory is two levels down
      obtain ⟨-, rfl⟩ | ⟨-, rfl⟩ | ⟨-, rfl⟩ := hmem
      · rw [Entry.kind?_directory, Keyed.find?] at hl
        split at hl <;> cases more <;> cases hl
      · cases hl
      · cases hl

/-- The directory of rules is listed from the end. -/
def turnedShelf : Entry := .directory [("r*", .directory shelfEntries.reverse)]

theorem relisted_shelf : shelf.top.Relisted turnedShelf := by
  have hrules : (Entry.directory shelfEntries).Relisted (.directory shelfEntries.reverse) :=
    .of_parts (Entry.relistedParts_refl _) (List.reverse_perm _).symm
  have hpart : Entry.RelistedPart ("r*", .directory shelfEntries) ("r*", .directory shelfEntries.reverse) :=
    ⟨rfl, hrules⟩
  exact .of_parts (.cons hpart .nil) (.refl _)

theorem cardPaths_finds_shelf :
    shelf.WellFormed ∧ shelf.Leads ⟨"r*"⟩ ["r*"] ∧ ¬ LosesWay ⟨"r*"⟩ ∧
      (∃ base, Listable shelf ["r*"] base ∧ Finds shelf ["r*"] base [⟨"r*/a/z.yml"⟩, ⟨"r*/a.yaml"⟩]) ∧
      shelf.top.Relisted turnedShelf ∧
      cardPaths (shelf.relist turnedShelf) ⟨"r*"⟩ = .ok [⟨"r*/a/z.yml"⟩, ⟨"r*/a.yaml"⟩] ∧
      shelf.Leads ⟨"./"⟩ [] ∧ LosesWay ⟨"./"⟩ ∧ cardPaths shelf ⟨"./"⟩ = .ok [] := by
  have hd : shelf.WellFormed := by decide
  have hhere : shelf.Leads ⟨"./"⟩ [] := ⟨rfl, rfl⟩
  have hloses : LosesWay ⟨"./"⟩ := ⟨0, [], rfl⟩
  have hkeeps : ¬ LosesWay ⟨"r*"⟩ := by
    rintro ⟨k, rest, hpieces⟩
    exact absurd (List.cons.inj hpieces).1 (by decide)
  obtain ⟨-, hfound, hrelist⟩ := cardPaths_finds hd leads_shelf
  obtain ⟨base, hstart, -, -, hfinds⟩ := hfound hkeeps
  obtain rfl := Option.some.inj (base?_shelf.symm.trans hstart)
  obtain ⟨paths, hok, hfinds⟩ := hfinds listable_shelf
  obtain rfl := Except.ok.inj (hok.symm.trans cardPaths_shelf)
  exact ⟨hd, leads_shelf, hkeeps, ⟨_, listable_shelf, hfinds⟩, relisted_shelf,
    (hrelist _ relisted_shelf).trans cardPaths_shelf, hhere, hloses, (cardPaths_finds hd hhere).1 hloses⟩

end Rulebook.Discovery
