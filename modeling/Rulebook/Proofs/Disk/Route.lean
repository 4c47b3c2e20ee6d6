import Rulebook.Proofs.Disk.Path

/-!
# Following a path

A path that leads somewhere passes only directories on its way, so it leads to the same place on
every disk that still has them.
-/

namespace Rulebook

set_option autoImplicit false

namespace Path

def wayAlong : Location → List String → List Location
  | l, [] => [l]
  | l, piece :: rest => l :: wayAlong (l.advance piece) rest

/-- The locations that a path passes, with the one it leads to. -/
def way (here : Location) (p : Path) : List Location :=
  wayAlong (if p.isAbsolute then [] else here) (Disk.pieces p)

theorem mem_wayAlong_start (l : Location) (pieces : List String) : l ∈ wayAlong l pieces := by
  cases pieces <;> simp [wayAlong]

theorem wayAlong_front (l : Location) (front back : List String) :
    ∀ m ∈ wayAlong l front, m ∈ wayAlong l (front ++ back) := by
  induction front generalizing l with
  | nil =>
    intro m hm
    rw [List.mem_singleton.mp hm]
    exact mem_wayAlong_start l back
  | cons piece rest ih =>
    intro m hm
    rcases List.mem_cons.mp hm with rfl | hm
    · exact List.mem_cons_self
    · exact List.mem_cons_of_mem _ (ih (l.advance piece) m hm)

theorem end_mem_wayAlong (l : Location) (pieces : List String) :
    pieces.foldl Location.advance l ∈ wayAlong l pieces := by
  induction pieces generalizing l with
  | nil => exact List.mem_cons_self
  | cons piece rest ih => exact List.mem_cons_of_mem _ (ih (l.advance piece))

theorem mem_wayAlong_append (l : Location) (front back : List String) (m : Location)
    (hm : m ∈ wayAlong l (front ++ back)) :
    m ∈ wayAlong l front ∨ m ∈ wayAlong (front.foldl Location.advance l) back := by
  induction front generalizing l with
  | nil => exact .inr hm
  | cons piece rest ih =>
    rcases List.mem_cons.mp hm with rfl | hm
    · exact .inl List.mem_cons_self
    · exact (ih (l.advance piece) hm).imp_left (List.mem_cons_of_mem _)

/-- One name more adds one location to the way. -/
theorem mem_way_join_iff {base : Path} {name : String} (hname : '/' ∉ name.toList)
    (hbase : base.text ≠ "") {here m : Location} :
    m ∈ (base.join ⟨name⟩).way here ↔
      m ∈ base.way here ∨ m = (base.placeFrom here).advance name := by
  obtain ⟨front, hjoin, hfront⟩ := pieces_join hname hbase
  rw [way, way, placeFrom, hjoin, isAbsolute_join hname hbase]
  generalize (if base.isAbsolute then [] else here : Location) = start
  have hplace : (Disk.pieces base).foldl Location.advance start =
      front.foldl Location.advance start := by
    rcases hfront with hfront | hfront
    · rw [hfront]
    · rw [hfront, List.foldl_append]
      rfl
  have hway : m ∈ wayAlong start (Disk.pieces base) ↔ m ∈ wayAlong start front := by
    rcases hfront with hfront | hfront
    · rw [hfront]
    · rw [hfront]
      refine ⟨fun hm => ?_, wayAlong_front _ _ _ m⟩
      rcases mem_wayAlong_append _ _ _ m hm with hm | hm
      · exact hm
      · have hend : m = front.foldl Location.advance start := by
          simpa [wayAlong, Location.advance] using hm
        rw [hend]
        exact end_mem_wayAlong _ _
  rw [hplace, hway]
  constructor
  · intro hm
    rcases mem_wayAlong_append _ _ _ m hm with hm | hm
    · exact .inl hm
    · rcases List.mem_cons.mp hm with rfl | hm
      · exact .inl (end_mem_wayAlong _ _)
      · exact .inr (List.mem_singleton.mp hm)
  · rintro (hm | rfl)
    · exact wayAlong_front _ _ _ m hm
    · have hend := end_mem_wayAlong start (front ++ [name])
      rwa [List.foldl_append] at hend

/-- The joined path fits into what the system takes as a path. -/
def Fits (base : Path) (name : String) : Prop :=
  (base.join ⟨name⟩).text.utf8ByteSize ≤ Disk.longestPath

instance (base : Path) (name : String) : Decidable (base.Fits name) :=
  inferInstanceAs (Decidable (_ ≤ _))

end Path

namespace Disk

variable {d d' : Disk}

theorem checkDirectory_ok_iff (l : Location) :
    d.checkDirectory l = .ok () ↔ d.kind? l = some .directory := by
  rw [checkDirectory, kind?_eq]
  cases d.entry? l with
  | none => simp
  | some e => cases e <;> simp [Entry.kind]

theorem isTooLong_here : isTooLong "." = false := by decide

theorem isTooLong_up : isTooLong ".." = false := by decide

theorem kind?_dropLast (l : Location) (h : (d.kind? l).isSome) : (d.kind? l.dropLast).isSome := by
  cases l using List.reverseRecOn with
  | nil => exact h
  | append_singleton front name =>
    rw [List.dropLast_concat, kind?_parent h]
    rfl

theorem follow_ok_iff (l l' : Location) (piece : String) :
    d.follow l piece = .ok l' ↔
      d.kind? l = some .directory ∧ l' = l.advance piece ∧ isTooLong piece = false ∧
        (d.kind? l').isSome := by
  unfold follow
  cases hcheck : d.checkDirectory l with
  | error e =>
    have hkind : d.kind? l ≠ some .directory := fun h => by
      rw [(checkDirectory_ok_iff l).mpr h] at hcheck
      cases hcheck
    simp [hkind, bind, Except.bind]
  | ok =>
    have hkind := (checkDirectory_ok_iff l).mp hcheck
    have hsome : (d.kind? l).isSome := by rw [hkind]; rfl
    simp only [hkind, true_and, bind, Except.bind]
    split
    · simp only [Location.advance, pure, Except.pure, Except.ok.injEq]
      exact ⟨fun h => ⟨h.symm, by decide, h ▸ hsome⟩, fun h => h.1.symm⟩
    · simp only [Location.advance, pure, Except.pure, Except.ok.injEq]
      exact ⟨fun h => ⟨h.symm, isTooLong_here, h ▸ hsome⟩, fun h => h.1.symm⟩
    · simp only [Location.advance, pure, Except.pure, Except.ok.injEq]
      exact ⟨fun h => ⟨h.symm, isTooLong_up, h ▸ kind?_dropLast l hsome⟩, fun h => h.1.symm⟩
    · rename_i hempty hhere hup
      rw [Location.advance_of_name l hempty hhere hup]
      by_cases hlong : isTooLong piece = true
      · simp [hlong, throw, throwThe, MonadExceptOf.throw]
      · rw [Bool.not_eq_true] at hlong
        have hentry : (d.entry? (l ++ [piece])).isSome = (d.kind? (l ++ [piece])).isSome := by
          rw [kind?_eq, Option.isSome_map]
        rw [hlong, if_neg Bool.false_ne_true, hentry]
        split
        · rename_i hthere
          simp only [pure, Except.pure, Except.ok.injEq, true_and]
          exact ⟨fun h => ⟨h.symm, h ▸ hthere⟩, fun h => h.1.symm⟩
        · rename_i hthere
          constructor
          · rintro ⟨⟩
          · rintro ⟨rfl, _, h⟩
            exact absurd h hthere

theorem foldlM_follow_cons_iff (piece : String) (rest : List String) (l l' : Location) :
    (piece :: rest).foldlM d.follow l = .ok l' ↔
      d.follow l piece = .ok (l.advance piece) ∧
        rest.foldlM d.follow (l.advance piece) = .ok l' := by
  rw [List.foldlM_cons]
  cases hstep : d.follow l piece with
  | error e => simp [bind, Except.bind]
  | ok m =>
    rw [((follow_ok_iff l m piece).mp hstep).2.1]
    simp [bind, Except.bind]

theorem foldlM_follow_place {pieces : List String} {l l' : Location}
    (h : pieces.foldlM d.follow l = .ok l') : l' = pieces.foldl Location.advance l := by
  induction pieces generalizing l with
  | nil => cases h; rfl
  | cons piece rest ih =>
    rw [foldlM_follow_cons_iff] at h
    exact ih h.2

theorem foldlM_follow_append (front back : List String) (l : Location) :
    (front ++ back).foldlM d.follow l =
      (front.foldlM d.follow l).bind fun m => back.foldlM d.follow m :=
  List.foldlM_append

/-- The way stays open as long as its directories stay and its end does not vanish. -/
theorem foldlM_follow_mono {pieces : List String} {l l' : Location}
    (h : pieces.foldlM d.follow l = .ok l')
    (hway : ∀ m ∈ Path.wayAlong l pieces,
      d.kind? m = some .directory → d'.kind? m = some .directory)
    (hend : (d.kind? l').isSome → (d'.kind? l').isSome) :
    pieces.foldlM d'.follow l = .ok l' := by
  induction pieces generalizing l with
  | nil => cases h; rfl
  | cons piece rest ih =>
    rw [foldlM_follow_cons_iff] at h ⊢
    obtain ⟨hstep, hrest⟩ := h
    obtain ⟨hdirectory, _, hshort, hthere⟩ := (follow_ok_iff l _ piece).mp hstep
    have hthere' : (d'.kind? (l.advance piece)).isSome := by
      cases rest with
      | nil => cases hrest; exact hend hthere
      | cons second more =>
        have hnext := ((foldlM_follow_cons_iff second more _ _).mp hrest).1
        rw [hway _ (List.mem_cons_of_mem _ (Path.mem_wayAlong_start _ _))
          ((follow_ok_iff _ _ _).mp hnext).1]
        rfl
    refine ⟨(follow_ok_iff l _ piece).mpr
      ⟨hway l List.mem_cons_self hdirectory, rfl, hshort, hthere'⟩, ?_⟩
    exact ih hrest fun m hm => hway m (List.mem_cons_of_mem _ hm)

/-- A way that is made of directories can be followed. -/
theorem foldlM_follow_of_way {pieces : List String} {l : Location}
    (hshort : ∀ piece ∈ pieces, isTooLong piece = false)
    (hway : ∀ m ∈ Path.wayAlong l pieces, d.kind? m = some .directory) :
    pieces.foldlM d.follow l = .ok (pieces.foldl Location.advance l) := by
  induction pieces generalizing l with
  | nil => rfl
  | cons piece rest ih =>
    obtain ⟨hpiece, hrest⟩ := List.forall_mem_cons.mp hshort
    have hahead (m : Location) (hm : m ∈ Path.wayAlong (l.advance piece) rest) :
        d.kind? m = some .directory := hway m (List.mem_cons_of_mem _ hm)
    have hnext := hahead _ (Path.mem_wayAlong_start _ rest)
    refine (foldlM_follow_cons_iff piece rest l _).mpr ⟨?_, ih hrest hahead⟩
    exact (follow_ok_iff l _ piece).mpr
      ⟨hway l List.mem_cons_self, rfl, hpiece, by rw [hnext]; rfl⟩

theorem short_of_foldlM_follow {pieces : List String} {l l' : Location}
    (h : pieces.foldlM d.follow l = .ok l') : ∀ piece ∈ pieces, isTooLong piece = false := by
  induction pieces generalizing l with
  | nil => exact fun _ hpiece => nomatch hpiece
  | cons piece rest ih =>
    obtain ⟨hstep, hrest⟩ := (foldlM_follow_cons_iff piece rest l l').mp h
    exact List.forall_mem_cons.mpr ⟨((follow_ok_iff _ _ _).mp hstep).2.2.1, ih hrest⟩

/-! ## Texts that are paths -/

theorem checkText_ok_iff (p : Path) :
    checkText p = .ok () ↔
      '\x00' ∉ p.text.toList ∧ p.text ≠ "" ∧ p.text.utf8ByteSize ≤ longestPath := by
  rw [checkText]
  by_cases hnul : '\x00' ∈ p.text.toList
  · simp [hnul]
  · by_cases hempty : p.text = ""
    · simp [hempty]
    · by_cases hlong : longestPath < p.text.utf8ByteSize
      · have hnot : ¬ p.text.utf8ByteSize ≤ longestPath := by omega
        simp [hnul, hempty, hlong, hnot]
      · have hshort : p.text.utf8ByteSize ≤ longestPath := by omega
        simp [hnul, hempty, hlong, hshort]

theorem locate_ok_iff (p : Path) (l : Location) :
    d.locate p = .ok l ↔
      checkText p = .ok () ∧ (pieces p).foldlM d.follow (d.start p) = .ok l := by
  rw [locate]
  cases hcheck : checkText p with
  | error e => simp [bind, Except.bind]
  | ok => simp [bind, Except.bind]

theorem locate_place {p : Path} {l : Location} (h : d.locate p = .ok l) :
    l = p.placeFrom d.here :=
  foldlM_follow_place ((locate_ok_iff p l).mp h).2

theorem locate_mono {p : Path} {l : Location} (h : d.locate p = .ok l) (hhere : d'.here = d.here)
    (hway : ∀ m ∈ p.way d.here, d.kind? m = some .directory → d'.kind? m = some .directory)
    (hend : (d.kind? l).isSome → (d'.kind? l).isSome) : d'.locate p = .ok l := by
  obtain ⟨hcheck, hfollow⟩ := (locate_ok_iff p l).mp h
  refine (locate_ok_iff p l).mpr ⟨hcheck, ?_⟩
  have hstart : d'.start p = d.start p := by rw [start, start, hhere]
  rw [hstart]
  exact foldlM_follow_mono hfollow hway hend

/-- The path is that of a directory. -/
structure Leads (d : Disk) (base : Path) (l : Location) : Prop where
  located : d.locate base = .ok l
  directory : d.kind? l = some .directory

namespace Leads

variable {base : Path} {l : Location}

theorem check (h : d.Leads base l) : checkText base = .ok () :=
  ((locate_ok_iff base l).mp h.located).1

theorem nonempty (h : d.Leads base l) : base.text ≠ "" :=
  ((checkText_ok_iff base).mp h.check).2.1

theorem place (h : d.Leads base l) : l = base.placeFrom d.here := locate_place h.located

theorem mono (h : d.Leads base l) (hhere : d'.here = d.here)
    (hdirectories : ∀ m, d.kind? m = some .directory → d'.kind? m = some .directory) :
    d'.Leads base l := by
  have hend := hdirectories l h.directory
  exact ⟨locate_mono h.located hhere (fun m _ => hdirectories m) fun _ => by rw [hend]; rfl, hend⟩

end Leads

theorem way_of_foldlM_follow {pieces : List String} {l l' : Location}
    (h : pieces.foldlM d.follow l = .ok l') :
    ∀ m ∈ Path.wayAlong l pieces, d.kind? m = some .directory ∨ m = l' := by
  induction pieces generalizing l with
  | nil =>
    cases h
    exact fun m hm => .inr (List.mem_singleton.mp hm)
  | cons piece rest ih =>
    obtain ⟨hstep, hrest⟩ := (foldlM_follow_cons_iff piece rest l l').mp h
    intro m hm
    rcases List.mem_cons.mp hm with rfl | hm
    · exact .inl ((follow_ok_iff _ _ _).mp hstep).1
    · exact ih hrest m hm

/-- Everything on the way to an entry is there. -/
theorem isSome_of_locate {p : Path} {l : Location} (h : d.locate p = .ok l)
    (hl : (d.kind? l).isSome) : ∀ m ∈ p.way d.here, (d.kind? m).isSome := by
  intro m hm
  rcases way_of_foldlM_follow ((locate_ok_iff p l).mp h).2 m hm with hdirectory | rfl
  · rw [hdirectory]
    rfl
  · exact hl

/-- The way to a directory is made of directories. -/
theorem Leads.way {base : Path} {l : Location} (h : d.Leads base l) :
    ∀ m ∈ base.way d.here, d.kind? m = some .directory := by
  intro m hm
  rcases way_of_foldlM_follow ((locate_ok_iff base l).mp h.located).2 m hm with hdirectory | rfl
  · exact hdirectory
  · exact h.directory

theorem fetch_ok_iff (p : Path) (e : Entry) :
    d.fetch p = .ok e ↔ ∃ l, d.locate p = .ok l ∧ d.entry? l = some e := by
  rw [fetch]
  cases hlocate : d.locate p with
  | error e => simp [bind, Except.bind]
  | ok l =>
    cases hentry : d.entry? l with
    | none => simp [bind, Except.bind, throw, throwThe, MonadExceptOf.throw, hentry]
    | some e => simp [bind, Except.bind, pure, Except.pure, hentry]

theorem isDirectory_iff (p : Path) : d.isDirectory p = true ↔ ∃ l, d.Leads p l := by
  rw [isDirectory]
  constructor
  · intro h
    split at h
    · rename_i e hfetch
      obtain ⟨l, hlocate, hentry⟩ := (fetch_ok_iff p e).mp hfetch
      refine ⟨l, hlocate, ?_⟩
      cases e with
      | file content => cases h
      | directory entries => rw [kind?_eq, hentry]; rfl
    · cases h
  · rintro ⟨l, hlocate, hdirectory⟩
    rw [kind?_eq, Option.map_eq_some_iff] at hdirectory
    obtain ⟨e, hentry, he⟩ := hdirectory
    rw [(fetch_ok_iff p e).mpr ⟨l, hlocate, hentry⟩]
    cases e with
    | file content => cases he
    | directory entries => rfl

theorem isFile_iff (p : Path) :
    d.isFile p = true ↔ ∃ l content, d.locate p = .ok l ∧ d.kind? l = some (.file content) := by
  rw [isFile]
  constructor
  · intro h
    split at h
    · rename_i e hfetch
      obtain ⟨l, hlocate, hentry⟩ := (fetch_ok_iff p e).mp hfetch
      cases e with
      | file content => exact ⟨l, content, hlocate, (kind?_eq_file_iff l content).mpr hentry⟩
      | directory entries => cases h
    · cases h
  · rintro ⟨l, content, hlocate, hfile⟩
    rw [(fetch_ok_iff p _).mpr ⟨l, hlocate, (kind?_eq_file_iff l content).mp hfile⟩]
    rfl

theorem contains_iff (p : Path) :
    d.contains p = true ↔ ∃ l, d.locate p = .ok l ∧ (d.kind? l).isSome := by
  rw [contains]
  cases hfetch : d.fetch p with
  | error e =>
    simp only [Except.toBool, Bool.false_eq_true, false_iff]
    rintro ⟨l, hlocate, hsome⟩
    obtain ⟨entry, hentry⟩ := Option.isSome_iff_exists.mp (by rwa [kind?_eq, Option.isSome_map] at hsome)
    rw [(fetch_ok_iff p entry).mpr ⟨l, hlocate, hentry⟩] at hfetch
    cases hfetch
  | ok entry =>
    obtain ⟨l, hlocate, hentry⟩ := (fetch_ok_iff p entry).mp hfetch
    simp only [Except.toBool, true_iff]
    exact ⟨l, hlocate, by rw [kind?_eq, hentry]; rfl⟩

theorem Leads.short {p : Path} {l : Location} (h : d.Leads p l) :
    ∀ piece ∈ pieces p, isTooLong piece = false :=
  short_of_foldlM_follow ((locate_ok_iff p l).mp h.located).2

theorem leads_of_way {p : Path} (hcheck : checkText p = .ok ())
    (hshort : ∀ piece ∈ pieces p, isTooLong piece = false)
    (hway : ∀ m ∈ p.way d.here, d.kind? m = some .directory) : d.Leads p (p.placeFrom d.here) where
  located := (locate_ok_iff p _).mpr ⟨hcheck, foldlM_follow_of_way hshort hway⟩
  directory := hway _ (Path.end_mem_wayAlong _ _)

theorem checkText_join_iff {name : String} {base : Path} (hname : '/' ∉ name.toList)
    (hbase : base.text ≠ "") :
    checkText (base.join ⟨name⟩) = .ok () ↔
      checkText base = .ok () ∧ '\x00' ∉ name.toList ∧ base.Fits name := by
  rw [checkText_ok_iff, checkText_ok_iff, Path.Fits]
  have hjoined := Path.join_ne_empty hname hbase
  rcases Path.text_join hname hbase with ⟨_, _, hjoin⟩ | hjoin
  · simp only [hjoin, String.toList_append, List.mem_append, String.utf8ByteSize_append] at hjoined ⊢
    have hless : base.text.utf8ByteSize + name.utf8ByteSize ≤ longestPath →
      base.text.utf8ByteSize ≤ longestPath := by omega
    tauto
  · simp only [hjoin, String.toList_append, List.mem_append, String.utf8ByteSize_append] at hjoined ⊢
    have hless : base.text.utf8ByteSize + "/".utf8ByteSize + name.utf8ByteSize ≤ longestPath →
      base.text.utf8ByteSize ≤ longestPath := by omega
    have hslash : '\x00' ∉ ("/" : String).toList := by decide
    tauto

/-- One more piece of a path leads to the directory that it names. -/
theorem Leads.join_piece {base : Path} {l : Location} {piece : String} (h : d.Leads base l)
    (hslash : '/' ∉ piece.toList) (hnul : '\x00' ∉ piece.toList) (hshort : isTooLong piece = false)
    (hfits : base.Fits piece) (hnext : d.kind? (l.advance piece) = some .directory) :
    d.Leads (base.join ⟨piece⟩) (l.advance piece) := by
  have hleads : d.Leads (base.join ⟨piece⟩) ((base.join ⟨piece⟩).placeFrom d.here) := by
    refine leads_of_way ((checkText_join_iff hslash h.nonempty).mpr ⟨h.check, hnul, hfits⟩) ?_ ?_
    · obtain ⟨front, hpieces, hbase⟩ := Path.pieces_join hslash h.nonempty
      rw [hpieces]
      intro other hother
      rcases List.mem_append.mp hother with hother | hother
      · refine h.short other ?_
        rcases hbase with hbase | hbase
        · rwa [hbase]
        · rw [hbase]
          exact List.mem_append_left _ hother
      · rwa [List.mem_singleton.mp hother]
    · intro m hm
      rcases (Path.mem_way_join_iff hslash h.nonempty).mp hm with hm | rfl
      · exact h.way m hm
      · rwa [← h.place]
  rwa [Path.placeFrom_join_piece hslash h.nonempty, ← h.place] at hleads

/-! ## Joined names -/

section Join

variable {name : String} {base : Path}

theorem start_join (hname : IsComponent name) (hbase : base.text ≠ "") :
    d.start (base.join ⟨name⟩) = d.start base := by
  rw [start, start, Path.isAbsolute_join hname.noSlash hbase]

/-- A path without its last name, up to a slash behind it, leads where the path does. -/
theorem foldlM_follow_base {front : List String} {l m : Location}
    (hpieces : pieces base = front ∨ pieces base = front ++ [""])
    (hm : d.kind? m = some .directory) :
    (pieces base).foldlM d.follow l = .ok m ↔ front.foldlM d.follow l = .ok m := by
  rcases hpieces with hpieces | hpieces
  · rw [hpieces]
  · have hslash : d.follow m "" = .ok m :=
      (follow_ok_iff m m "").mpr ⟨hm, rfl, by decide, by rw [hm]; rfl⟩
    rw [hpieces, foldlM_follow_append]
    constructor
    · intro h
      cases hfront : front.foldlM d.follow l with
      | error e => rw [hfront] at h; cases h
      | ok m' =>
        rw [hfront] at h
        have h : [""].foldlM d.follow m' = .ok m := h
        rw [foldlM_follow_place h]
        rfl
    · intro h
      rw [h]
      exact (foldlM_follow_cons_iff "" [] m m).mpr ⟨hslash, rfl⟩

theorem locate_join_iff (hname : IsComponent name) (hbase : base.text ≠ "") (m : Location) :
    d.locate (base.join ⟨name⟩) = .ok m ↔
      ∃ l, d.Leads base l ∧ m = l ++ [name] ∧ IsName name ∧ base.Fits name ∧
        (d.kind? (l ++ [name])).isSome := by
  obtain ⟨front, hjoin, hpieces⟩ := Path.pieces_join hname.noSlash hbase
  rw [locate_ok_iff, checkText_join_iff hname.noSlash hbase, hjoin, foldlM_follow_append,
    start_join hname hbase]
  constructor
  · rintro ⟨⟨hcheck, hnul, hfits⟩, hfollow⟩
    cases hfront : front.foldlM d.follow (d.start base) with
    | error e => rw [hfront] at hfollow; cases hfollow
    | ok l =>
      rw [hfront] at hfollow
      obtain ⟨hstep, hm⟩ := (foldlM_follow_cons_iff name [] l m).mp hfollow
      obtain ⟨hdirectory, hl, hshort, hthere⟩ := (follow_ok_iff _ _ _).mp hstep
      rw [Location.advance_of_name l hname.nonempty hname.notHere hname.notUp] at hm hthere
      cases hm
      refine ⟨l, ⟨(locate_ok_iff base l).mpr ⟨hcheck, ?_⟩, hdirectory⟩, rfl,
        ⟨hname, hnul, hshort⟩, hfits, hthere⟩
      exact (foldlM_follow_base hpieces hdirectory).mpr hfront
  · rintro ⟨l, hleads, rfl, hisName, hfits, hthere⟩
    obtain ⟨hcheck, hfollow⟩ := (locate_ok_iff base l).mp hleads.located
    refine ⟨⟨hcheck, hisName.noNul, hfits⟩, ?_⟩
    rw [(foldlM_follow_base hpieces hleads.directory).mp hfollow]
    have hadvance := Location.advance_of_name l hname.nonempty hname.notHere hname.notUp
    refine (foldlM_follow_cons_iff name [] l _).mpr ⟨?_, by rw [hadvance]; rfl⟩
    exact (follow_ok_iff _ _ _).mpr
      ⟨hleads.directory, rfl, hisName.short, by rw [hadvance]; exact hthere⟩

theorem isFile_join_iff {base : Path} {l : Location} {name : String} (h : d.Leads base l)
    (hname : IsName name) :
    d.isFile (base.join ⟨name⟩) = true ↔
      base.Fits name ∧ ∃ content, d.kind? (l ++ [name]) = some (.file content) := by
  rw [isFile_iff]
  constructor
  · rintro ⟨m, content, hlocate, hfile⟩
    obtain ⟨l', hleads, rfl, _, hfits, _⟩ :=
      (locate_join_iff hname.toIsComponent h.nonempty m).mp hlocate
    rw [hleads.place, ← h.place] at hfile
    exact ⟨hfits, content, hfile⟩
  · rintro ⟨hfits, content, hfile⟩
    refine ⟨l ++ [name], content, ?_, hfile⟩
    exact (locate_join_iff hname.toIsComponent h.nonempty _).mpr
      ⟨l, h, rfl, hname, hfits, by rw [hfile]; rfl⟩

theorem target_join {l : Location} (h : d.Leads base l) (hname : IsComponent name)
    (hcheck : checkText (base.join ⟨name⟩) = .ok ()) :
    d.target (base.join ⟨name⟩) = .ok (some ⟨l, name, false⟩) := by
  obtain ⟨front, hjoin, hpieces⟩ := Path.pieces_join hname.noSlash h.nonempty
  have hfollow : front.foldlM d.follow (d.start base) = .ok l :=
    (foldlM_follow_base hpieces h.directory).mp ((locate_ok_iff base l).mp h.located).2
  have hdirectory := (checkDirectory_ok_iff l).mpr h.directory
  have hkept : ((front ++ [name]).reverse.dropWhile (·.isEmpty)).reverse = front ++ [name] := by
    simp [hname.nonempty]
  simp only [target, hcheck, hjoin, hkept, List.dropLast_concat, List.getLast?_concat,
    start_join hname h.nonempty, hfollow, hdirectory, bind, Except.bind]
  split
  · simp_all
  · rename_i heq
    exact absurd (Option.some.inj heq) hname.notHere
  · rename_i heq
    exact absurd (Option.some.inj heq) hname.notUp
  · rename_i heq
    cases heq
    simp [pure, Except.pure]

theorem target_join_of_fits {l : Location} (h : d.Leads base l) (hname : IsName name)
    (hfits : base.Fits name) : d.target (base.join ⟨name⟩) = .ok (some ⟨l, name, false⟩) :=
  target_join h hname.toIsComponent
    ((checkText_join_iff hname.noSlash h.nonempty).mpr ⟨h.check, hname.noNul, hfits⟩)

theorem of_target_join {l : Location} (h : d.Leads base l) (hname : IsComponent name)
    {t : Option Target} (ht : d.target (base.join ⟨name⟩) = .ok t) :
    '\x00' ∉ name.toList ∧ base.Fits name ∧ t = some ⟨l, name, false⟩ := by
  have hcheck : checkText (base.join ⟨name⟩) = .ok () := by
    cases hcheck : checkText (base.join ⟨name⟩) with
    | error e =>
      rw [target, hcheck] at ht
      cases ht
    | ok => rfl
  obtain ⟨_, hnul, hfits⟩ := (checkText_join_iff hname.noSlash h.nonempty).mp hcheck
  rw [target_join h hname hcheck, Except.ok.injEq] at ht
  exact ⟨hnul, hfits, ht.symm⟩

end Join

end Disk

end Rulebook
