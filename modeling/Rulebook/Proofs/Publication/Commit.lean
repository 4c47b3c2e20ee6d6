import Rulebook.Proofs.Publication.Preparation

/-!
# Setting aside, installing, taking back

The files moved so far are known by name, out of the output directory and into it. Taking back undoes
both, so that outside the staging place everything is as it was before.
-/

namespace Rulebook

set_option autoImplicit false

namespace Disk

variable {d : Disk}

theorem names_ok {p : Path} {names : List String} (hd : d.WellFormed) (h : d.names p = .ok names) :
    ∃ l, d.Leads p l ∧ names.Nodup ∧ ∀ name, name ∈ names ↔ (d.kind? (l ++ [name])).isSome := by
  rw [Disk.names] at h
  cases hfetch : d.fetch p with
  | error e => rw [hfetch] at h; cases h
  | ok e =>
    rw [hfetch] at h
    obtain ⟨l, hlocate, hentry⟩ := (fetch_ok_iff p e).mp hfetch
    cases e with
    | file content => cases h
    | directory entries =>
      cases h
      have hwellFormed := wellFormed_entry hd hentry
      refine ⟨l, ⟨hlocate, by rw [kind?_eq, hentry]; rfl⟩,
        ((Entry.wellFormed_directory_iff entries).mp hwellFormed).1.nodup_keys, fun name => ?_⟩
      rw [kind?_append hentry, Entry.kind?_directory, ← Keyed.find?_isSome_iff]
      cases Keyed.find? name entries with
      | none => simp
      | some part => simp

end Disk

namespace Publication

variable {output : Path} {d d₁ d₂ d₃ d' : Disk} {O : Location}

/-- The names of the packages in the output directory, as far as their paths are not too long. -/
structure Lists (output : Path) (d : Disk) (O : Location) (names : List String) : Prop where
  nodup : names.Nodup
  mem_iff : ∀ name, name ∈ names ↔ output.Fits name ∧
    (⟨name⟩ : Path).extension? = some "json" ∧ ∃ content, d.kind? (O ++ [name]) = some (.file content)

theorem existing_ok {paths : List Path} (hd : d.WellFormed) (h : existing output d = .ok paths) :
    ∃ O names, d.Leads output O ∧ Lists output d O names ∧
      (∀ name ∈ names, IsName name) ∧ paths = names.map fun name => output.join ⟨name⟩ := by
  rw [existing] at h
  cases hnames : d.names output with
  | error e => rw [hnames] at h; cases h
  | ok all =>
    rw [hnames] at h
    obtain ⟨O, hleads, hnodup, hmem⟩ := Disk.names_ok hd hnames
    have hall : ∀ name ∈ all, IsName name := fun name hname =>
      Disk.isName_of_isSome hd ((hmem name).mp hname)
    cases h
    let isPackage (p : Path) : Bool := d.isFile p && p.extension? == some "json"
    refine ⟨O, all.filter fun name => isPackage (output.join ⟨name⟩), hleads,
      ⟨hnodup.filter _, fun name => ?_⟩, fun name hname => hall name (List.mem_filter.mp hname).1,
      by rw [List.filter_map]; rfl⟩
    rw [List.mem_filter, Bool.and_eq_true, beq_iff_eq]
    constructor
    · rintro ⟨hname, hfile, hextension⟩
      rw [Path.extension?_join (hall name hname).toIsComponent output] at hextension
      obtain ⟨hfits, hcontent⟩ := (Disk.isFile_join_iff hleads (hall name hname)).mp hfile
      exact ⟨hfits, hextension, hcontent⟩
    · rintro ⟨hfits, hextension, content, hfile⟩
      have hname : name ∈ all := (hmem name).mpr (by rw [hfile]; rfl)
      refine ⟨hname, (Disk.isFile_join_iff hleads (hall name hname)).mpr ⟨hfits, content, hfile⟩, ?_⟩
      rw [Path.extension?_join (hall name hname).toIsComponent output, hextension]

theorem existing_of_leads (h : d.Leads output O) : ∃ paths, existing output d = .ok paths := by
  obtain ⟨entries, hentry⟩ := (Disk.kind?_eq_directory_iff O).mp h.directory
  have hnames : d.names output = .ok (Keyed.keys entries) := by
    rw [Disk.names, (Disk.fetch_ok_iff output _).mpr ⟨O, h.located, hentry⟩]
    rfl
  rw [existing, hnames]
  exact ⟨_, rfl⟩

theorem inDirectory_join (directory : Path) {names : List String}
    (hnames : ∀ name ∈ names, IsComponent name) :
    inDirectory directory (names.map fun name => output.join ⟨name⟩) =
      byName output directory names := by
  induction names with
  | nil => rfl
  | cons name names ih =>
    have hname := Path.fileName?_join (hnames name List.mem_cons_self) output
    have ih := ih fun other hother => hnames other (List.mem_cons_of_mem _ hother)
    rw [inDirectory] at ih ⊢
    rw [List.map_cons, List.filterMap_cons, hname]
    simp only [Option.map_some, ih]
    rfl

theorem byName_swap (a b : Path) (names : List String) :
    (byName a b names).map Prod.swap = byName b a names := by
  simp [byName]

theorem name_of_fileName {packages : List Package}
    (hids : ∀ p ∈ packages, Manifest.validAgentId p.id = true) :
    ∀ name ∈ packages.map (·.fileName),
      IsComponent name ∧ (⟨name⟩ : Path).extension? = some "json" := by
  intro name hname
  obtain ⟨p, hp, rfl⟩ := List.mem_map.mp hname
  exact ⟨isComponent_fileName (hids p hp), extension?_fileName (hids p hp)⟩

/-- The new packages are moved by their names. -/
theorem swap_inDirectory_fresh {packages : List Package}
    (hids : ∀ p ∈ packages, Manifest.validAgentId p.id = true) :
    (inDirectory (freshOf output) (packages.map fun p => output.join ⟨p.fileName⟩)).map Prod.swap =
      byName (freshOf output) output (packages.map (·.fileName)) := by
  have hpackages : packages.map (fun p => output.join ⟨p.fileName⟩) =
      (packages.map (·.fileName)).map fun name => output.join ⟨name⟩ := by
    rw [List.map_map]
    rfl
  rw [hpackages, inDirectory_join _ fun name hname => (name_of_fileName hids name hname).1,
    byName_swap]

theorem not_outside_fresh (here : Location) (name : String) :
    ¬ Outside (stagingPlace output here) (freshPlace output here ++ [name]) := by
  intro h
  refine h ?_
  rw [freshPlace, List.append_assoc]
  exact List.prefix_append _ _

theorem not_outside_previous (here : Location) (name : String) :
    ¬ Outside (stagingPlace output here) (previousPlace output here ++ [name]) := by
  intro h
  refine h ?_
  rw [previousPlace, List.append_assoc]
  exact List.prefix_append _ _

theorem ne_freshPlace {here : Location} (hO : Outside (stagingPlace output here) O) :
    freshPlace output here ≠ O := by
  rintro rfl
  exact hO (List.prefix_append _ _)

theorem ne_previousPlace {here : Location} (hO : Outside (stagingPlace output here) O) :
    O ≠ previousPlace output here := by
  rintro rfl
  exact hO (List.prefix_append _ _)

theorem freshPlace_ne_previousPlace (here : Location) :
    freshPlace output here ≠ previousPlace output here := by
  intro h
  simp [freshPlace, previousPlace] at h

/-- What has been moved, out of the output directory and into it. -/
structure Pending (output : Path) (O : Location) (setAside installed : List String)
    (d₁ d₂ d₃ : Disk) : Prop where
  ready : Ready output d₁
  leads : d₁.Leads output O
  outside : Outside (stagingPlace output d₁.here) O
  aside : MovedAll d₁ d₂ O (previousPlace output d₁.here) setAside
  asideMovable : ∀ name ∈ setAside, Movable output (previousOf output) name
  inPlace : MovedAll d₂ d₃ (freshPlace output d₁.here) O installed
  inPlaceMovable : ∀ name ∈ installed, Movable (freshOf output) output name
  /-- What was there has been set aside. -/
  free : ∀ name ∈ installed, d₂.kind? (O ++ [name]) = none

namespace Pending

variable {setAside installed : List String}

theorem here (h : Pending output O setAside installed d₁ d₂ d₃) : d₃.here = d₁.here :=
  h.inPlace.here.trans h.aside.here

theorem directory (h : Pending output O setAside installed d₁ d₂ d₃) {l : Location}
    (hl : d₁.kind? l = some .directory) : d₃.kind? l = some .directory :=
  h.inPlace.directory (h.aside.directory hl)

/-- What led somewhere still does so after all the moves. -/
theorem leadsStill (h : Pending output O setAside installed d₁ d₂ d₃) {p : Path} {l : Location}
    (hp : d₁.Leads p l) : d₃.Leads p l :=
  hp.mono h.here fun _ => h.directory

end Pending

theorem takeBack_spec {setAside installed : List String}
    (h : Pending output O setAside installed d₁ d₂ d₃) :
    d₁.GainsDirectories (Outside (stagingPlace output d₁.here))
      (takeBack (byName (freshOf output) output installed)
        (byName output (previousOf output) setAside) d₃) ∧
      (takeBack (byName (freshOf output) output installed)
        (byName output (previousOf output) setAside) d₃).WellFormed := by
  have hOQ := ne_previousPlace h.outside
  have hFO := ne_freshPlace h.outside
  -- the new packages go
  have hremoved := foldl_removeFile (a := freshOf output) h.inPlace.wellFormed
    (h.leadsStill h.leads) h.inPlace.nodup
    (fun name hname => ⟨(h.inPlaceMovable name hname).isName, (h.inPlaceMovable name hname).destination⟩)
    fun name hname => by
      rw [h.inPlace.destination name hname]
      exact h.inPlace.file name hname
  rw [takeBack]
  dsimp only
  generalize (byName (freshOf output) output installed).foldl _ d₃ = d₄ at hremoved ⊢
  have hsame : ∀ l, (∀ name, l ≠ freshPlace output d₁.here ++ [name]) → d₄.kind? l = d₂.kind? l := by
    intro l hl
    by_cases hinstalled : ∃ name ∈ installed, l = O ++ [name]
    · obtain ⟨name, hname, rfl⟩ := hinstalled
      rw [hremoved.gone name hname, h.free name hname]
    · rw [hremoved.elsewhere l fun name hname heq => hinstalled ⟨name, hname, heq⟩,
        h.inPlace.elsewhere l fun name hname => ⟨hl name, fun heq => hinstalled ⟨name, hname, heq⟩⟩]
  have hkeep₄ : ∀ l, d₁.kind? l = some .directory → d₄.kind? l = some .directory :=
    fun l hl => hremoved.directory (h.directory hl)
  have hhere₄ : d₄.here = d₁.here := hremoved.here.trans h.here
  have hsource : ∀ name, d₄.kind? (previousPlace output d₁.here ++ [name]) =
      d₂.kind? (previousPlace output d₁.here ++ [name]) := fun name =>
    hsame _ fun other => concat_ne (freshPlace_ne_previousPlace d₁.here).symm _ _
  have hdestination : ∀ name, d₄.kind? (O ++ [name]) = d₂.kind? (O ++ [name]) := fun name =>
    hsame _ fun other => concat_ne hFO.symm _ _
  -- the old ones come back
  have hback := foldl_move ⟨hremoved.wellFormed, h.ready.previous.mono hhere₄ hkeep₄,
    h.leads.mono hhere₄ hkeep₄, hOQ.symm, h.aside.nodup,
    fun name hname => ⟨(h.asideMovable name hname).isName, (h.asideMovable name hname).destination,
      (h.asideMovable name hname).source⟩,
    fun name hname => by
      rw [hsource, h.aside.destination name hname]
      exact h.aside.file name hname,
    fun name hname => by
      rw [hdestination, h.aside.source name hname]
      rintro ⟨⟩⟩
  refine ⟨⟨hback.here.trans hhere₄, fun l hl => .inl ?_⟩, hback.wellFormed⟩
  by_cases haside : ∃ name ∈ setAside, l = O ++ [name]
  · obtain ⟨name, hname, rfl⟩ := haside
    rw [hback.destination name hname, hsource, h.aside.destination name hname]
  · have hoff : ∀ name ∈ setAside, l ≠ previousPlace output d₁.here ++ [name] ∧ l ≠ O ++ [name] :=
      fun name hname => ⟨fun heq => not_outside_previous d₁.here name (heq ▸ hl),
        fun heq => haside ⟨name, hname, heq⟩⟩
    rw [hback.elsewhere l hoff, hsame l fun name heq => not_outside_fresh d₁.here name (heq ▸ hl),
      h.aside.elsewhere l fun name hname => ⟨(hoff name hname).2, (hoff name hname).1⟩]

/-- What stands where a package goes has been set aside, unless nothing can be moved there. -/
theorem free_of_lists {names installed : List String} (hlists : Lists output d₁ O names)
    (haside : MovedAll d₁ d₂ O (previousPlace output d₁.here) names)
    (hOQ : O ≠ previousPlace output d₁.here)
    (hinstalled : MovedAll d₂ d₃ (freshPlace output d₁.here) O installed)
    (hmovable : ∀ name ∈ installed, Movable (freshOf output) output name)
    (hextension : ∀ name ∈ installed, (⟨name⟩ : Path).extension? = some "json") :
    ∀ name ∈ installed, d₂.kind? (O ++ [name]) = none := by
  intro name hname
  by_cases hlisted : name ∈ names
  · exact haside.source name hlisted
  · have hbefore : d₂.kind? (O ++ [name]) = d₁.kind? (O ++ [name]) := by
      rw [haside.elsewhere]
      exact fun other hother =>
        ⟨concat_ne_of_ne fun heq => hlisted (heq ▸ hother), concat_ne hOQ _ _⟩
    cases hkind : d₂.kind? (O ++ [name]) with
    | none => rfl
    | some kind =>
      cases kind with
      | directory => exact absurd hkind (hinstalled.free name hname)
      | file content =>
        have hfits := (hmovable name hname).destination
        rw [hbefore] at hkind
        exact absurd ((hlists.mem_iff name).mpr ⟨hfits, hextension name hname, content, hkind⟩)
          hlisted

/-- The new packages are all moved in, or everything that was moved is taken back. -/
theorem install_spec {packages : List Package} {names : List String}
    (hlists : Lists output d₁ O names) (hpending : Pending output O names [] d₁ d₂ d₂)
    (hids : ∀ p ∈ packages, Manifest.validAgentId p.id = true) {aside : Moves}
    (hdisk : aside.disk = d₂) (hmade : aside.made = byName output (previousOf output) names)
    {result : Except CompileError Unit} (h : install output packages aside = (result, d')) :
    (∃ e, result = .error e ∧ d'.WellFormed ∧
      d₁.GainsDirectories (Outside (stagingPlace output d₁.here)) d') ∨
    (result = .ok () ∧ Pending output O names (packages.map (·.fileName)) d₁ d₂ d') := by
  have hnames := name_of_fileName hids
  have haside := hpending.aside
  have hkeep : ∀ l, d₁.kind? l = some .directory → d₂.kind? l = some .directory :=
    fun l => haside.directory
  rw [install, swap_inDirectory_fresh hids, hdisk] at h
  obtain ⟨done, rest, hsplit, hmoved, hin, hmovable, hall⟩ := moveAll_byName haside.wellFormed
    (hpending.ready.fresh.mono haside.here hkeep) (hpending.leads.mono haside.here hkeep)
    (ne_freshPlace hpending.outside) fun name hname => (hnames name hname).1
  have hextension : ∀ name ∈ done, (⟨name⟩ : Path).extension? = some "json" := fun name hname =>
    (hnames name (by rw [hsplit]; exact List.mem_append_left _ hname)).2
  have hinstalled : Pending output O names done d₁ d₂
      (moveAll (byName (freshOf output) output (packages.map (·.fileName))) d₂).disk :=
    ⟨hpending.ready, hpending.leads, hpending.outside, haside, hpending.asideMovable, hin, hmovable,
      free_of_lists hlists haside (ne_previousPlace hpending.outside) hin hmovable hextension⟩
  split at h
  · cases h
    have hback := takeBack_spec hinstalled
    rw [hmade, hmoved]
    exact .inl ⟨_, rfl, hback.2, hback.1⟩
  · rename_i hfailed
    cases h
    have hdone : done = packages.map (·.fileName) := by rw [hsplit, hall hfailed, List.append_nil]
    exact .inr ⟨rfl, hdone ▸ hinstalled⟩

/-- A commit takes back what it did, or all old packages are set aside and all new ones in place. -/
theorem commit_spec {packages : List Package} (hready : Ready output d)
    (hids : ∀ p ∈ packages, Manifest.validAgentId p.id = true)
    {result : Except CompileError Unit} (h : commit output packages d = (result, d')) :
    (∃ e, result = .error e ∧ d'.WellFormed ∧
      d.GainsDirectories (Outside (stagingPlace output d.here)) d') ∨
    (result = .ok () ∧ ∃ O names d₁ d₂, d.GainsDirectories Disk.everywhere d₁ ∧
      (∀ l, l ∉ output.way d.here → d₁.kind? l = d.kind? l) ∧ Lists output d₁ O names ∧
      Pending output O names (packages.map (·.fileName)) d₁ d₂ d') := by
  rw [commit] at h
  split at h
  · rename_i hmake
    cases h
    obtain ⟨hgains, hd', _⟩ := makeDirectories_spec _ hready.wellFormed hmake
    exact .inl ⟨_, rfl, hd', hgains.mono fun _ _ => trivial⟩
  · rename_i d₁ hmake
    obtain ⟨hgains, hd₁, _⟩ := makeDirectories_spec _ hready.wellFormed hmake
    have hbefore : d.GainsDirectories (Outside (stagingPlace output d.here)) d₁ :=
      hgains.mono fun _ _ => trivial
    have hready₁ := hready.mono hd₁ hgains.here fun l => hgains.directory trivial
    split at h
    · cases h
      exact .inl ⟨_, rfl, hd₁, hbefore⟩
    · rename_i paths hexisting
      obtain ⟨O, names, hleads, hlists, hnames, rfl⟩ := existing_ok hd₁ hexisting
      have hO := outside_of_leads hleads
      have hcomponents : ∀ name ∈ names, IsComponent name :=
        fun name hname => (hnames name hname).toIsComponent
      rw [inDirectory_join _ hcomponents] at h
      obtain ⟨done, rest, hsplit, hmade, haside, hmovable, hall⟩ :=
        moveAll_byName hd₁ hleads hready₁.previous (ne_previousPlace hO) hcomponents
      have hpending : Pending output O done [] d₁
          (moveAll (byName output (previousOf output) names) d₁).disk
          (moveAll (byName output (previousOf output) names) d₁).disk :=
        ⟨hready₁, hleads, hO, haside, hmovable, .nil haside.wellFormed _ _, by simp, by simp⟩
      dsimp only at h
      split at h
      · cases h
        have hback := takeBack_spec hpending
        rw [hmade]
        rw [hgains.here] at hback
        exact .inl ⟨_, rfl, hback.2, hbefore.trans hback.1⟩
      · rename_i hfailed
        have hdone : done = names := by rw [hsplit, hall hfailed, List.append_nil]
        subst hdone
        rcases install_spec hlists hpending hids rfl hmade h with ⟨e, herror, hd', hback⟩ | ⟨hok, hin⟩
        · rw [hgains.here] at hback
          exact .inl ⟨e, herror, hd', hbefore.trans hback⟩
        · exact .inr ⟨hok, O, done, d₁, _, hgains,
            fun _ => makeDirectories_off hready.wellFormed hmake, hlists, hin⟩

end Publication

end Rulebook
