import Mathlib.Data.List.Nodup
import Rulebook.Proofs.Corpus.Basic
import Rulebook.Proofs.Corpus.Discovery
import Rulebook.Proofs.Publication.Kept

/-!
# The cards after a publication

A publication does not change which cards are found, where, and what they say, as long as they and the
way to them lie outside the staging place.
-/

namespace Rulebook

set_option autoImplicit false

open Publication (Keeps Outside stagingPlace IsPackagePlace)

namespace Discovery

variable {d d' : Disk} {root base base' : Path}

/-- A step along the directory's path, whose ways stay open. -/
theorem follow_mono {piece : String} (hpiece : '/' ∉ piece.toList) (hbase : base.text ≠ "")
    (hhere : d'.here = d.here) (hway : ∀ m ∈ base.way d.here, d'.kind? m = some .directory)
    (hnext : d'.kind? ((base.placeFrom d.here).advance piece) = some .directory)
    (h : follow d base piece = some base') :
    follow d' base piece = some base' ∧ base'.text ≠ "" ∧
      base'.placeFrom d.here = (base.placeFrom d.here).advance piece ∧
      ∀ m ∈ base'.way d.here, d'.kind? m = some .directory := by
  have hways : ∀ m ∈ (inside base piece).way d.here, d'.kind? m = some .directory := by
    intro m hm
    rcases way_inside hpiece hbase m hm with hm | rfl
    · exact hway m hm
    · exact hnext
  rw [follow] at h ⊢
  split at h
  · rename_i hcase
    cases h
    have hthere : d.contains (inside base piece) = true → d'.contains (inside base piece) = true := by
      rw [Disk.contains_iff, Disk.contains_iff]
      rintro ⟨l, hlocate, _⟩
      have hl := hways l (by rw [Disk.locate_place hlocate]; exact Path.end_mem_wayAlong _ _)
      exact ⟨l, Disk.locate_mono hlocate hhere (fun m hm _ => hways m hm) fun _ => by rw [hl]; rfl,
        by rw [hl]; rfl⟩
    refine ⟨if_pos ?_, ?_, placeFrom_inside hpiece hbase, hways⟩
    · simp only [Bool.or_eq_true] at hcase ⊢
      exact hcase.imp_right hthere
    · by_cases hempty : piece = ""
      · subst hempty
        obtain ⟨l, hlocate, _⟩ := (Disk.contains_iff _).mp (by simpa using hcase)
        exact ((Disk.checkText_ok_iff _).mp ((Disk.locate_ok_iff _ l).mp hlocate).1).2.1
      · exact inside_ne_empty hempty
  · cases h

theorem foldlM_follow_mono {pieces : List String} (hpieces : ∀ piece ∈ pieces, '/' ∉ piece.toList)
    (hbase : base.text ≠ "") (hhere : d'.here = d.here)
    (hway : ∀ m ∈ base.way d.here, d'.kind? m = some .directory)
    (hahead : ∀ m ∈ Path.wayAlong (base.placeFrom d.here) pieces, d'.kind? m = some .directory)
    (h : pieces.foldlM (follow d) base = some base') :
    pieces.foldlM (follow d') base = some base' ∧ base'.text ≠ "" ∧
      base'.placeFrom d.here = pieces.foldl Location.advance (base.placeFrom d.here) ∧
      ∀ m ∈ base'.way d.here, d'.kind? m = some .directory := by
  induction pieces generalizing base with
  | nil =>
    cases h
    exact ⟨rfl, hbase, rfl, hway⟩
  | cons piece rest ih =>
    rw [List.foldlM_cons] at h ⊢
    obtain ⟨next, hfollow, h⟩ := Option.bind_eq_some_iff.mp h
    have hnext := hahead _ (List.mem_cons_of_mem _ (Path.mem_wayAlong_start _ rest))
    obtain ⟨hfollow', hnonempty, hplace, hways⟩ :=
      follow_mono (hpieces piece List.mem_cons_self) hbase hhere hway hnext hfollow
    obtain ⟨hrest, hnonempty', hplace', hways'⟩ :=
      ih (fun other hother => hpieces other (List.mem_cons_of_mem _ hother)) hnonempty hways
        (fun m hm => hahead m (List.mem_cons_of_mem _ (by rwa [← hplace]))) h
    refine ⟨Option.bind_eq_some_iff.mpr ⟨next, hfollow', hrest⟩, hnonempty', ?_, hways'⟩
    rw [hplace', hplace]
    rfl

/-- The base of the card paths stays the same as long as the way to it stays open. -/
theorem base?_mono (hhere : d'.here = d.here)
    (hway : ∀ m ∈ root.way d.here, d'.kind? m = some .directory) (h : base? d root = some base) :
    base? d' root = some base ∧ base.text ≠ "" ∧
      base.placeFrom d.here = root.placeFrom d.here ∧
      ∀ m ∈ base.way d.here, d'.kind? m = some .directory := by
  have hslash : ∀ piece ∈ Disk.pieces root, '/' ∉ piece.toList :=
    fun piece hpiece => Path.noSlash_of_mem_pieces hpiece
  rw [Path.way] at hway
  have hplace : root.placeFrom d.here =
      (Disk.pieces root).foldl Location.advance (if root.isAbsolute then [] else d.here) := rfl
  rw [hplace]
  rw [base?] at h ⊢
  split at h
  · rename_i habsolute
    rw [if_pos habsolute] at hway ⊢
    rw [if_pos habsolute]
    obtain ⟨second, rest, hpieces⟩ := (Path.isAbsolute_iff root).mp habsolute
    have hsplit : Disk.pieces root = "" :: (second :: rest).map String.ofList := by
      rw [Disk.pieces, hpieces]
      rfl
    rw [hsplit] at hway hslash h ⊢
    have htop := hway [] (Path.mem_wayAlong_start _ _)
    refine foldlM_follow_mono (fun piece hpiece => hslash piece (List.mem_cons_of_mem _ hpiece))
      (by decide) hhere (fun m hm => ?_) (fun m hm => hway m (List.mem_cons_of_mem _ hm)) h
    rw [show m = [] by simpa [Path.way, Path.wayAlong, Path.isAbsolute, Disk.pieces, Path.slashPieces,
      Location.advance] using hm]
    exact htop
  · rename_i hrelative
    rw [if_neg hrelative] at hway ⊢
    rw [if_neg hrelative]
    have hstart := hway d.here (Path.mem_wayAlong_start _ _)
    refine foldlM_follow_mono hslash (by decide) hhere (fun m hm => ?_) hway h
    rw [show m = d.here by simpa [Path.way, Path.wayAlong, Path.isAbsolute, Disk.pieces,
      Path.slashPieces, Location.advance] using hm]
    exact hstart

/-! ## Card files -/

/-- Where the card files of a directory are in it. -/
def cardFiles (d : Disk) (base : Path) (entries : List (String × Entry)) : List Location :=
  (Entry.filesIn entries).filter fun l => isCardPath (pathAt base l) && d.isFile (pathAt base l)

theorem filter_filesIn (d : Disk) (base : Path) (entries : List (String × Entry)) :
    ((filesIn base entries).filter fun p => isCardPath p && d.isFile p) =
      (cardFiles d base entries).map (pathAt base) := by
  rw [filesIn_eq, List.filter_map]
  rfl

theorem cardPaths_ok_iff {paths : List Path} (hne : paths ≠ []) :
    cardPaths d root = .ok paths ↔
      ∃ R entries base, d.locate root = .ok R ∧ d.entry? R = some (.directory entries) ∧
        base? d root = some base ∧ paths = inOrder ((cardFiles d base entries).map (pathAt base)) := by
  rw [cardPaths]
  constructor
  · intro h
    split at h
    · rename_i entries hfetch
      obtain ⟨R, hlocate, hentry⟩ := (Disk.fetch_ok_iff root _).mp hfetch
      split at h
      · rename_i base hbase
        cases h
        exact ⟨R, entries, base, hlocate, hentry, hbase, by rw [filter_filesIn]⟩
      · cases h
        exact absurd rfl hne
    · cases h
  · rintro ⟨R, entries, base, hlocate, hentry, hbase, rfl⟩
    rw [(Disk.fetch_ok_iff root _).mpr ⟨R, hlocate, hentry⟩]
    simp only [hbase, filter_filesIn]

theorem mem_cardFiles_iff {R l : Location} {entries : List (String × Entry)} (hd : d.WellFormed)
    (hentry : d.entry? R = some (.directory entries)) :
    l ∈ cardFiles d base entries ↔
      (isCardPath (pathAt base l) = true ∧ d.isFile (pathAt base l) = true) ∧
        ∃ content, d.kind? (R ++ l) = some (.file content) := by
  have hfiles := Entry.mem_files_iff (l := l) (Disk.wellFormed_entry hd hentry)
  rw [Entry.files] at hfiles
  rw [cardFiles, List.mem_filter, hfiles, Disk.kind?_append hentry, Bool.and_eq_true, and_comm]

theorem rising_cardFiles {R : Location} {entries : List (String × Entry)} (hd : d.WellFormed)
    (hentry : d.entry? R = some (.directory entries)) :
    (cardFiles d base entries).Pairwise (· < ·) := by
  have hrising := Entry.rising_files _ (Disk.wellFormed_entry hd hentry)
  rw [Entry.files] at hrising
  exact hrising.filter _

theorem nodup_cardFiles {R : Location} {entries : List (String × Entry)} (hd : d.WellFormed)
    (hentry : d.entry? R = some (.directory entries)) : (cardFiles d base entries).Nodup := by
  refine List.nodup_iff_pairwise_ne.mpr ((rising_cardFiles hd hentry).imp fun hlt heq => ?_)
  rw [heq] at hlt
  exact List.lt_irrefl _ hlt

theorem cardFile_spec {R l : Location} {entries : List (String × Entry)} (hd : d.WellFormed)
    (hentry : d.entry? R = some (.directory entries)) (hl : l ∈ cardFiles d base entries) :
    (∀ name ∈ l, IsName name) ∧ ∃ front name, l = front ++ [name] := by
  obtain ⟨_, content, hfile⟩ := (mem_cardFiles_iff hd hentry).mp hl
  rw [Disk.kind?_append hentry] at hfile
  refine ⟨Entry.isName_of_isSome (Disk.wellFormed_entry hd hentry) (by rw [hfile]; rfl), ?_⟩
  rcases l.eq_nil_or_concat' with rfl | ⟨front, name, heq⟩
  · cases hfile
  · exact ⟨front, name, heq⟩

/-- A file that can be seen by its path can be seen on every disk that has it and the way to it. -/
theorem isFile_pathAt {l : Location} {content : ByteArray} (hnames : ∀ name ∈ l, IsName name)
    (hbase : base.text ≠ "") (hhere : d'.here = d.here)
    (hways : ∀ m ∈ base.way d.here, d'.kind? m = some .directory)
    (hfile : d'.kind? (base.placeFrom d.here ++ l) = some (.file content))
    (h : d.isFile (pathAt base l) = true) : d'.isFile (pathAt base l) = true := by
  have hcomponents : ∀ name ∈ l, IsComponent name := fun name hname =>
    (hnames name hname).toIsComponent
  obtain ⟨m, other, hlocate, hother⟩ := (Disk.isFile_iff _).mp h
  have hm : m = base.placeFrom d.here ++ l := by
    rw [Disk.locate_place hlocate]
    exact (pathAt_spec hcomponents hbase).2.1
  refine (Disk.isFile_iff _).mpr ⟨m, content, ?_, by rw [hm, hfile]⟩
  refine Disk.locate_mono hlocate hhere (fun k hk hdirectory => ?_) fun _ => by rw [hm, hfile]; rfl
  rcases (pathAt_spec hcomponents hbase).2.2 k hk with hk | ⟨front, ⟨back, rfl⟩, rfl⟩
  · exact hways k hk
  · refine Disk.kind?_above back (fun hnil => ?_) (by rw [List.append_assoc, hfile]; rfl)
    -- the whole location is that of the file, which is no directory
    rw [hnil, List.append_nil] at hm
    rw [← hm, hother] at hdirectory
    cases hdirectory

theorem not_isPackagePlace {output : Path} {here R l : Location}
    (hnames : ∀ name ∈ l, IsName name) (hl : ∃ front name, l = front ++ [name])
    (hcard : isCardPath (pathAt base l) = true) : ¬ IsPackagePlace output here (R ++ l) := by
  obtain ⟨front, name, rfl⟩ := hl
  rintro ⟨other, hextension, heq⟩
  rw [← List.append_assoc] at heq
  obtain rfl := List.singleton_inj.mp (List.append_inj_right' heq rfl)
  exact extension?_of_isCardPath (hnames name (by simp)).toIsComponent hcard hextension

end Discovery

/-- A clean load has read every file, even those it has skipped. -/
theorem CorpusLoad.readText_of_clean {lenient : Bool} {d : Disk} {paths : List Path} {p : Path}
    (hclean : (ofResults lenient (paths.map d.loadCard)).errors = []) (hp : p ∈ paths) :
    ∃ text, d.readText p = .ok text := by
  cases hread : d.readText p with
  | ok text => exact ⟨text, rfl⟩
  | error e =>
    have hload : d.loadCard p = .error (.io p e.message) := by rw [Disk.loadCard, hread]
    have hfailure : .io p e.message ∈ failuresOf (paths.map d.loadCard) :=
      mem_failuresOf.mpr (List.mem_map.mpr ⟨p, hp, hload⟩)
    rw [ofResults_eq, List.append_eq_nil_iff, List.filter_eq_nil_iff] at hclean
    refine absurd ?_ (hclean.1 _ hfailure)
    simp [isSchemaError]

namespace Publication.Keeps

open Discovery

variable {output rules : Path} {d d' : Disk} {paths : List Path}

/-- A publication leaves the same card files, in the same order, and the way to each of them. -/
theorem cardPaths (hd : d.WellFormed) (h : Keeps output d d')
    (hrules : rules.Avoids d.here (stagingPlace output d.here))
    (hpaths : Discovery.cardPaths d rules = .ok paths) (hne : paths ≠ [])
    (houtside : ∀ p ∈ paths, Outside (stagingPlace output d.here) (p.placeFrom d.here)) :
    Discovery.cardPaths d' rules = .ok paths ∧
      ∀ p ∈ paths, p.Avoids d.here (stagingPlace output d.here) ∧
        ¬ IsPackagePlace output d.here (p.placeFrom d.here) := by
  obtain ⟨R, entries, base, hlocate, hentry, hbase, rfl⟩ := (cardPaths_ok_iff hne).mp hpaths
  have hleads : d.Leads rules R := ⟨hlocate, by rw [Disk.kind?_eq, hentry]; rfl⟩
  have hleads' := h.leads hrules hleads
  obtain ⟨entries', hentry'⟩ := (Disk.kind?_eq_directory_iff R).mp hleads'.directory
  obtain ⟨hbase', hnonempty, hplace, hways⟩ := base?_mono h.here
    (fun m hm => h.directory m (hrules m hm) (hleads.way m hm)) hbase
  obtain ⟨-, -, -, hways₀⟩ := base?_mono rfl hleads.way hbase
  rw [← hleads.place] at hplace
  have hmem (p : Path) : p ∈ inOrder ((cardFiles d base entries).map (pathAt base)) ↔
      ∃ l ∈ cardFiles d base entries, pathAt base l = p := by
    rw [inOrder, List.mem_mergeSort, List.mem_map]
  have hspec {l : Location} (hnames : ∀ name ∈ l, IsName name) :
      (pathAt base l).placeFrom d.here = R ++ l ∧ ∀ m ∈ (pathAt base l).way d.here,
        m ∈ base.way d.here ∨ ∃ front, front <+: l ∧ m = R ++ front := by
    rw [← hplace]
    exact (pathAt_spec (fun name hname => (hnames name hname).toIsComponent) hnonempty).2
  have hsame : cardFiles d' base entries' = cardFiles d base entries := by
    refine Entry.eq_of_rising (rising_cardFiles h.wellFormed hentry')
      (rising_cardFiles hd hentry) fun l => ?_
    constructor
    · intro hl
      obtain ⟨hnames, hlast⟩ := cardFile_spec h.wellFormed hentry' hl
      obtain ⟨⟨hcard, hseen⟩, content, hfile⟩ := (mem_cardFiles_iff h.wellFormed hentry').mp hl
      have hfile₀ : d.kind? (R ++ l) = some (.file content) :=
        (h.file_iff _ content (h.outside_of_isSome (by rw [hfile]; rfl))
          (not_isPackagePlace hnames hlast hcard)).mp hfile
      refine (mem_cardFiles_iff hd hentry).mpr ⟨⟨hcard, ?_⟩, content, hfile₀⟩
      have hplaced : d.kind? (base.placeFrom d'.here ++ l) = some (.file content) := by
        rw [h.here, hplace, hfile₀]
      exact isFile_pathAt hnames hnonempty h.here.symm (h.here ▸ hways₀) hplaced hseen
    · intro hl
      obtain ⟨hnames, hlast⟩ := cardFile_spec hd hentry hl
      obtain ⟨⟨hcard, hseen⟩, content, hfile⟩ := (mem_cardFiles_iff hd hentry).mp hl
      have hout := houtside _ ((hmem _).mpr ⟨l, hl, rfl⟩)
      rw [(hspec hnames).1] at hout
      have hfile' : d'.kind? (R ++ l) = some (.file content) :=
        (h.file_iff _ content hout (not_isPackagePlace hnames hlast hcard)).mpr hfile
      refine (mem_cardFiles_iff h.wellFormed hentry').mpr ⟨⟨hcard, ?_⟩, content, hfile'⟩
      have hplaced : d'.kind? (base.placeFrom d.here ++ l) = some (.file content) := by
        rw [hplace, hfile']
      exact isFile_pathAt hnames hnonempty h.here hways hplaced hseen
  refine ⟨(cardPaths_ok_iff hne).mpr ⟨R, entries', base, hleads'.located, hentry', hbase', by
    rw [hsame]⟩, fun p hp => ?_⟩
  obtain ⟨l, hl, rfl⟩ := (hmem p).mp hp
  obtain ⟨hnames, hlast⟩ := cardFile_spec hd hentry hl
  obtain ⟨hplaced, hway⟩ := hspec hnames
  have hout := houtside _ hp
  rw [hplaced] at hout ⊢
  refine ⟨fun m hm => ?_, not_isPackagePlace hnames hlast ((mem_cardFiles_iff hd hentry).mp hl).1.1⟩
  rcases hway m hm with hm | ⟨front, hfront, rfl⟩
  · exact h.outside_of_isSome (by rw [hways m hm]; rfl)
  · exact fun hprefix => hout (List.IsPrefix.trans hprefix ((List.prefix_append_right_inj R).mpr hfront))

theorem loadCard {p : Path} {text : String} (h : Keeps output d d')
    (hp : p.Avoids d.here (stagingPlace output d.here))
    (hplace : ¬ IsPackagePlace output d.here (p.placeFrom d.here))
    (hread : d.readText p = .ok text) : d'.loadCard p = d.loadCard p := by
  rw [Disk.loadCard, Disk.loadCard, hread, h.readText hp hplace hread]

/-- A clean corpus is loaded again from outside the staging place. -/
theorem loadCorpus (hd : d.WellFormed) (h : Keeps output d d')
    (hrules : rules.Avoids d.here (stagingPlace output d.here)) {lenient : Bool}
    {cores workers : Nat} {load : CorpusLoad}
    (hload : d.loadCorpus cores ⟨lenient, workers⟩ rules = .ok load)
    (hclean : load.errors = []) (hsome : load.corpus.toList ≠ [])
    (houtside : ∀ paths, Discovery.cardPaths d rules = .ok paths → ∀ p ∈ paths,
      Outside (stagingPlace output d.here) (p.placeFrom d.here)) (cores' workers' : Nat) :
    d'.loadCorpus cores' ⟨lenient, workers'⟩ rules = .ok load := by
  obtain ⟨paths, hpaths, rfl⟩ := Disk.loadCorpus_ok_iff.mp hload
  have hne : paths ≠ [] := by
    rintro rfl
    exact hsome rfl
  obtain ⟨hpaths', hways⟩ := h.cardPaths hd hrules hpaths hne (houtside paths hpaths)
  refine Disk.loadCorpus_ok_iff.mpr ⟨paths, hpaths', ?_⟩
  have hcards : paths.map d'.loadCard = paths.map d.loadCard := by
    refine List.map_congr_left fun p hp => ?_
    obtain ⟨text, hread⟩ := CorpusLoad.readText_of_clean hclean hp
    obtain ⟨havoids, hplace⟩ := hways p hp
    exact h.loadCard havoids hplace hread
  rw [hcards]

theorem avoids_of_loadCorpus (h : Keeps output d d') {cores : Nat} {options : LoadOptions}
    {load : CorpusLoad} (hload : d'.loadCorpus cores options rules = .ok load) :
    rules.Avoids d.here (stagingPlace output d.here) := by
  obtain ⟨paths, hpaths, -⟩ := Disk.loadCorpus_ok_iff.mp hload
  rw [Discovery.cardPaths] at hpaths
  split at hpaths
  · rename_i entries hfetch
    obtain ⟨l, hlocate, hentry⟩ := (Disk.fetch_ok_iff _ _).mp hfetch
    exact h.avoids hlocate (by rw [Disk.kind?_eq, hentry]; rfl)
  · cases hpaths

end Publication.Keeps

end Rulebook
