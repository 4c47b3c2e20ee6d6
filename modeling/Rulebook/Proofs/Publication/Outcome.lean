import Rulebook.Proofs.Publication.Clearing
import Rulebook.Proofs.Publication.Commit

/-!
# What a publication leaves behind

A publication that fails has only added directories outside the staging place. One that succeeds has
replaced the packages in the output directory, except those whose paths are too long to be looked at,
and has added directories only on the way there.
-/

namespace Rulebook.Publication

set_option autoImplicit false

variable {output : Path} {d d' : Disk} {packages : List Package}

/-- What a finished publication has gone through, before the staging directory goes. -/
structure Completed (output : Path) (packages : List Package) (d dStaged d₁ d₂ dEnd : Disk)
    (O : Location) (names : List String) : Prop where
  gains : d.GainsDirectories (Outside (stagingPlace output d.here)) dStaged
  staged : (packages.map (·.fileName)).Nodup → ∀ p ∈ packages,
    dStaged.kind? (freshPlace output d.here ++ [p.fileName]) = some (.file p.bytes)
  made : dStaged.GainsDirectories Disk.everywhere d₁
  onWay : ∀ l, Outside (stagingPlace output d.here) l → l ∉ output.way d.here →
    d₁.kind? l = d.kind? l
  lists : Lists output d₁ O names
  pending : Pending output O names (packages.map (·.fileName)) d₁ d₂ dEnd

theorem publish_spec (hd : d.WellFormed)
    (hids : ∀ p ∈ packages, Manifest.validAgentId p.id = true)
    {result : Except CompileError (List Published)} (h : publish output packages d = (result, d')) :
    (∃ e, result = .error e ∧ d.GainsDirectories (Outside (stagingPlace output d.here)) d') ∨
      (result = .ok (packages.map (published output)) ∧ ∃ dStaged d₁ d₂ dEnd O names,
        Completed output packages d dStaged d₁ d₂ dEnd O names ∧ d' = discard output dEnd) := by
  unfold publish at h
  split at h
  · rename_i hprepare
    cases h
    exact .inl ⟨_, rfl, (prepare_spec hd hprepare).1⟩
  · rename_i dStart hprepare
    obtain ⟨hgains, hready⟩ := prepare_spec hd hprepare
    have hready := hready rfl
    have hnames : ∀ p ∈ packages, IsComponent p.fileName :=
      fun p hp => isComponent_fileName (hids p hp)
    cases hstage : stage output packages dStart with
    | mk staged dStaged =>
      obtain ⟨hstaged, hfiles⟩ := stage_spec hready hnames hstage
      have hgainsStaged := hstaged.gains
      rw [hgains.here] at hgainsStaged
      have hgains' := hgains.trans hgainsStaged
      have hready' := hready.mono hstaged.wellFormed hstaged.here hstaged.directory
      unfold run at h
      rw [hstage] at h
      cases staged with
      | error e =>
        obtain ⟨hresult, hd'⟩ := Prod.mk.inj h
        have hdiscard := discard_spec output hstaged.wellFormed
        rw [hgains'.here, hd'] at hdiscard
        exact .inl ⟨e, hresult.symm, hgains'.trans hdiscard.1⟩
      | ok =>
        dsimp only at h
        cases hcommit : commit output packages dStaged with
        | mk result dEnd =>
          rw [hcommit] at h
          rcases commit_spec hready' hids hcommit with ⟨e, rfl, hdEnd, hback⟩ | ⟨rfl, hdone⟩
          · obtain ⟨hresult, hd'⟩ := Prod.mk.inj h
            rw [hgains'.here] at hback
            have hdiscard := discard_spec output hdEnd
            rw [hback.here, hgains'.here, hd'] at hdiscard
            exact .inl ⟨e, hresult.symm, (hgains'.trans hback).trans hdiscard.1⟩
          · obtain ⟨hresult, hd'⟩ := Prod.mk.inj h
            obtain ⟨O, names, d₁, d₂, hmake, hoff, hlists, hpending⟩ := hdone
            have hfiles := hfiles rfl
            rw [hgains.here] at hfiles
            have honWay : ∀ l, Outside (stagingPlace output d.here) l → l ∉ output.way d.here →
                d₁.kind? l = d.kind? l := by
              intro l hl hway
              rw [hoff l (by rwa [hgains'.here]), hstaged.outside (by rwa [hgains.here]),
                prepare_off hd hprepare hl hway]
            exact .inr ⟨hresult.symm, dStaged, d₁, d₂, dEnd, O, names,
              ⟨hgains', hfiles, hmake, honWay, hlists, hpending⟩, hd'.symm⟩

/-- A publication that fails, at whatever step, leaves every file outside the staging place where it
was and as it was, and adds none; at most there are new directories. -/
theorem publish_error (hd : d.WellFormed)
    (hids : ∀ p ∈ packages, Manifest.validAgentId p.id = true) {e : CompileError}
    (h : publish output packages d = (.error e, d')) :
    d.GainsDirectories (Outside (stagingPlace output d.here)) d' := by
  rcases publish_spec hd hids h with ⟨_, _, hgains⟩ | ⟨hok, _⟩
  · exact hgains
  · cases hok

theorem outcome_eq {α : Type} {o : Outcome α} {result : Except CompileError α}
    (h : o.1 = result) : o = (result, o.2) := by
  rw [← h]

def packageOf (id : String) : Package := { (default : Package) with id, rules := ["CORE-1"] }

/-- A directory stands where the second package goes. -/
def blocked : Disk :=
  ⟨.directory [("out", .directory
    [("api.json", .file "old".toUTF8), ("docker.json", .directory [])])], []⟩

theorem publish_error_blocked :
    blocked.WellFormed ∧
    (∀ p ∈ [packageOf "api", packageOf "docker"], Manifest.validAgentId p.id = true) ∧
    (publish ⟨"out"⟩ [packageOf "api", packageOf "docker"] blocked).1 =
      .error (.io ⟨"out/docker.json"⟩ DiskError.isDirectory.message) ∧
    blocked.GainsDirectories (Outside (stagingPlace ⟨"out"⟩ blocked.here))
      (publish ⟨"out"⟩ [packageOf "api", packageOf "docker"] blocked).2 := by
  have hd : blocked.WellFormed := by decide
  have hids : ∀ p ∈ [packageOf "api", packageOf "docker"], Manifest.validAgentId p.id = true := by
    decide
  have herror : (publish ⟨"out"⟩ [packageOf "api", packageOf "docker"] blocked).1 =
      .error (.io ⟨"out/docker.json"⟩ DiskError.isDirectory.message) := by decide +kernel
  exact ⟨hd, hids, herror, publish_error hd hids (outcome_eq herror)⟩

theorem nodup_fileNames (h : (packages.map (·.id)).Nodup) :
    (packages.map (·.fileName)).Nodup := by
  have hmap : packages.map (·.fileName) = (packages.map (·.id)).map (· ++ ".json") := by
    rw [List.map_map]
    rfl
  rw [hmap]
  refine List.pairwise_map.mpr (List.Pairwise.imp ?_ h)
  intro x y hne heq
  have hlist := congrArg String.toList heq
  rw [String.toList_append, String.toList_append] at hlist
  exact hne (String.toList_inj.mp (List.append_cancel_right hlist))

namespace Completed

variable {dStaged d₁ d₂ dEnd : Disk} {O : Location} {names : List String}

theorem here (h : Completed output packages d dStaged d₁ d₂ dEnd O names) :
    d₁.here = d.here ∧ dEnd.here = d.here := by
  have h₁ : d₁.here = d.here := h.made.here.trans h.gains.here
  exact ⟨h₁, h.pending.here.trans h₁⟩

theorem place (h : Completed output packages d dStaged d₁ d₂ dEnd O names) :
    O = output.placeFrom d.here := by
  rw [h.pending.leads.place, h.here.1]

theorem gainsBefore (h : Completed output packages d dStaged d₁ d₂ dEnd O names) :
    d.GainsDirectories (Outside (stagingPlace output d.here)) d₁ :=
  h.gains.trans (h.made.mono fun _ _ => trivial)

/-- The staged bytes are what is installed. -/
theorem installed (h : Completed output packages d dStaged d₁ d₂ dEnd O names)
    (hnodup : (packages.map (·.fileName)).Nodup) {p : Package} (hp : p ∈ packages) :
    dEnd.kind? (O ++ [p.fileName]) = some (.file p.bytes) := by
  have hfresh : d₂.kind? (freshPlace output d₁.here ++ [p.fileName]) =
      d₁.kind? (freshPlace output d₁.here ++ [p.fileName]) :=
    h.pending.aside.elsewhere _ fun name _ =>
      ⟨concat_ne (ne_freshPlace h.pending.outside) _ _,
        concat_ne (freshPlace_ne_previousPlace d₁.here) _ _⟩
  rw [h.pending.inPlace.destination _ (List.mem_map_of_mem hp), hfresh, h.here.1]
  exact (h.made.file_iff trivial p.bytes).mpr (h.staged hnodup p hp)

theorem cleared (h : Completed output packages d dStaged d₁ d₂ dEnd O names) {name : String}
    (hname : name ∈ names) (hnot : name ∉ packages.map (·.fileName)) :
    dEnd.kind? (O ++ [name]) = none := by
  rw [h.pending.inPlace.elsewhere, h.pending.aside.source name hname]
  exact fun other hother => ⟨concat_ne (ne_freshPlace h.pending.outside).symm _ _,
    concat_ne_of_ne fun heq => hnot (heq ▸ hother)⟩

theorem elsewhere (h : Completed output packages d dStaged d₁ d₂ dEnd O names) {l : Location}
    (hl : Outside (stagingPlace output d.here) l) (hnames : ∀ name ∈ names, l ≠ O ++ [name])
    (hpackages : ∀ name ∈ packages.map (·.fileName), l ≠ O ++ [name]) :
    dEnd.kind? l = d₁.kind? l := by
  rw [← h.here.1] at hl
  rw [h.pending.inPlace.elsewhere l fun name hname =>
      ⟨fun heq => not_outside_fresh d₁.here name (heq ▸ hl), hpackages name hname⟩,
    h.pending.aside.elsewhere l fun name hname =>
      ⟨hnames name hname, fun heq => not_outside_previous d₁.here name (heq ▸ hl)⟩]

theorem discarded (h : Completed output packages d dStaged d₁ d₂ dEnd O names) (l : Location) :
    (discard output dEnd).kind? l =
      if stagingPlace output d.here <+: l then none else dEnd.kind? l := by
  have hfresh := h.pending.leadsStill h.pending.ready.fresh
  have hremove : dEnd.removeDirectory (stagingOf output) =
      .ok (dEnd.remove (stagingPlace output d.here)) := by
    refine (Disk.removeDirectory_ok_iff _).mpr ⟨_, ?_, rfl⟩
    rw [← h.here.2]
    exact leads_staging_of_fresh hfresh
  rw [discard, hremove]
  refine Disk.kind?_remove h.pending.inPlace.wellFormed ?_ l
  rw [stagingPlace_eq]
  simp

theorem kept (h : Completed output packages d dStaged d₁ d₂ dEnd O names) {l : Location}
    (hl : Outside (stagingPlace output d.here) l) :
    (discard output dEnd).kind? l = dEnd.kind? l := by
  rw [h.discarded, if_neg hl]

/-- A package file is one of the new ones, or its path is too long for it to have been set aside. -/
theorem package_iff (h : Completed output packages d dStaged d₁ d₂ dEnd O names)
    (hnodup : (packages.map (·.fileName)).Nodup) {name : String} {content : ByteArray}
    (hextension : (⟨name⟩ : Path).extension? = some "json") :
    dEnd.kind? (O ++ [name]) = some (.file content) ↔
      (∃ p ∈ packages, name = p.fileName ∧ content = p.bytes) ∨
        (¬ output.Fits name ∧ d.kind? (O ++ [name]) = some (.file content)) := by
  have hO : Outside (stagingPlace output d.here) O := h.place ▸ outside_output output d.here
  have hl := outside_file hO hextension
  have hbefore := h.gainsBefore
  constructor
  · intro hfile
    by_cases hnew : name ∈ packages.map (·.fileName)
    · obtain ⟨p, hp, rfl⟩ := List.mem_map.mp hnew
      rw [h.installed hnodup hp] at hfile
      exact .inl ⟨p, hp, rfl, (Kind.file.inj (Option.some.inj hfile)).symm⟩
    · by_cases hold : name ∈ names
      · rw [h.cleared hold hnew] at hfile
        cases hfile
      · rw [h.elsewhere hl (fun other hother => concat_ne_of_ne fun heq => hold (heq ▸ hother))
          fun other hother => concat_ne_of_ne fun heq => hnew (heq ▸ hother)] at hfile
        refine .inr ⟨fun hfits => hold ?_, (hbefore.file_iff hl content).mp hfile⟩
        exact (h.lists.mem_iff name).mpr ⟨hfits, hextension, content, hfile⟩
  · rintro (⟨p, hp, rfl, hcontent⟩ | ⟨hlong, hfile⟩)
    · rw [h.installed hnodup hp, hcontent]
    · have hunlisted : ∀ other ∈ names, O ++ [name] ≠ O ++ [other] := fun other hother =>
        concat_ne_of_ne fun heq => hlong (heq ▸ ((h.lists.mem_iff other).mp hother).1)
      have hunpublished : ∀ other ∈ packages.map (·.fileName), O ++ [name] ≠ O ++ [other] :=
        fun other hother => concat_ne_of_ne fun heq =>
          hlong (heq ▸ (h.pending.inPlaceMovable other hother).destination)
      rw [h.elsewhere hl hunlisted hunpublished]
      exact (hbefore.file_iff hl content).mpr hfile

/-- What is moved are files, so that the directories are those on the way and those from before. -/
theorem directory_iff (h : Completed output packages d dStaged d₁ d₂ dEnd O names)
    (hnodup : (packages.map (·.fileName)).Nodup) {l : Location}
    (hl : Outside (stagingPlace output d.here) l) :
    dEnd.kind? l = some .directory ↔ d.kind? l = some .directory ∨ l ∈ output.way d.here := by
  constructor
  · intro hdirectory
    by_cases hway : l ∈ output.way d.here
    · exact .inr hway
    left
    have hpackages : ∀ name ∈ packages.map (·.fileName), l ≠ O ++ [name] := by
      rintro name hname rfl
      obtain ⟨p, hp, rfl⟩ := List.mem_map.mp hname
      rw [h.installed hnodup hp] at hdirectory
      cases hdirectory
    have hnames : ∀ name ∈ names, l ≠ O ++ [name] := by
      rintro name hname rfl
      rw [h.cleared hname fun hnew => hpackages name hnew rfl] at hdirectory
      cases hdirectory
    rwa [h.elsewhere hl hnames hpackages, h.onWay l hl hway] at hdirectory
  · rintro (hdirectory | hway)
    · exact h.pending.directory (h.gainsBefore.directory hl hdirectory)
    · rw [← h.here.1] at hway
      exact h.pending.directory (h.pending.leads.way l hway)

end Completed

/-- The packages in the output directory are replaced by the given ones, except for some that are
spared; apart from that only directories appear on the way there, and the staging directory is gone. -/
structure Replaces (output : Path) (packages : List Package) (spared : String → Prop)
    (d d' : Disk) : Prop where
  here : d'.here = d.here
  /-- The package files are those of the packages and those spared. -/
  package : ∀ name content, (⟨name⟩ : Path).extension? = some "json" →
    (d'.kind? (output.placeFrom d.here ++ [name]) = some (.file content) ↔
      (∃ p ∈ packages, name = p.fileName ∧ content = p.bytes) ∨
        (spared name ∧ d.kind? (output.placeFrom d.here ++ [name]) = some (.file content)))
  /-- Nothing else is touched: other files, and directories of any name. -/
  elsewhere : ∀ l, Outside (stagingPlace output d.here) l →
    (∀ name, (⟨name⟩ : Path).extension? = some "json" → l = output.placeFrom d.here ++ [name] →
      ∀ content, d.kind? l ≠ some (.file content) ∧ d'.kind? l ≠ some (.file content)) →
    d'.kind? l = d.kind? l ∨ (d.kind? l = none ∧ d'.kind? l = some .directory)
  /-- No directory goes, and only those up to the output directory appear. -/
  directory : ∀ l, Outside (stagingPlace output d.here) l →
    (d'.kind? l = some .directory ↔ d.kind? l = some .directory ∨ l ∈ output.way d.here)
  staging : ∀ l, stagingPlace output d.here <+: l → d'.kind? l = none

theorem Completed.replaces {dStaged d₁ d₂ dEnd : Disk} {O : Location} {names : List String}
    (h : Completed output packages d dStaged d₁ d₂ dEnd O names)
    (hids : ∀ p ∈ packages, Manifest.validAgentId p.id = true)
    (hdistinct : (packages.map (·.id)).Nodup) :
    Replaces output packages (fun name => ¬ output.Fits name) d (discard output dEnd) := by
  have hplace := h.place
  have hnodup := nodup_fileNames hdistinct
  have hO : Outside (stagingPlace output d.here) O := hplace ▸ outside_output output d.here
  have hbefore := h.gainsBefore
  constructor
  · exact (discard_spec output h.pending.inPlace.wellFormed).1.here.trans h.here.2
  · intro name content hextension
    rw [← hplace, h.kept (outside_file hO hextension), h.package_iff hnodup hextension]
  · intro l hl hnot
    rw [← hplace] at hnot
    have hunlisted : ∀ name ∈ names, l ≠ O ++ [name] := by
      rintro name hname rfl
      obtain ⟨_, hextension, content, hfile⟩ := (h.lists.mem_iff name).mp hname
      exact (hnot name hextension rfl content).1 ((hbefore.file_iff hl content).mp hfile)
    have hunpublished : ∀ name ∈ packages.map (·.fileName), l ≠ O ++ [name] := by
      rintro name hname rfl
      obtain ⟨p, hp, rfl⟩ := List.mem_map.mp hname
      refine (hnot p.fileName (extension?_fileName (hids p hp)) rfl p.bytes).2 ?_
      rw [h.kept hl, h.installed hnodup hp]
    rw [h.kept hl, h.elsewhere hl hunlisted hunpublished]
    exact hbefore.view l hl
  · intro l hl
    rw [h.kept hl, h.directory_iff hnodup hl]
  · intro l hl
    rw [h.discarded, if_pos hl]

/-- A publication that succeeds replaces the packages in the output directory. It misses exactly those
whose paths are too long, as such a path is not taken for that of a file. -/
theorem publish_ok (hd : d.WellFormed) (hids : ∀ p ∈ packages, Manifest.validAgentId p.id = true)
    (hdistinct : (packages.map (·.id)).Nodup) {written : List Published}
    (h : publish output packages d = (.ok written, d')) :
    written = packages.map (fun p =>
      ⟨p.id, output.join ⟨p.fileName⟩, Digest.ofBytes p.bytes, p.sourceDigest⟩) ∧
    Replaces output packages (fun name => ¬ output.Fits name) d d' ∧
    (Replaces output packages (fun _ => False) d d' ↔
      ∀ name content, (⟨name⟩ : Path).extension? = some "json" →
        d.kind? (output.placeFrom d.here ++ [name]) = some (.file content) → output.Fits name) := by
  rcases publish_spec hd hids h with
    ⟨_, herror, _⟩ | ⟨hok, dStaged, d₁, d₂, dEnd, O, names, hcompleted, hd'⟩
  · cases herror
  · have hreplaces := hcompleted.replaces hids hdistinct
    rw [← hd'] at hreplaces
    refine ⟨Except.ok.inj hok, hreplaces, fun hclaim name content hextension hfile => ?_,
      fun hfits => ⟨hreplaces.here, fun name content hextension => ?_, hreplaces.elsewhere,
        hreplaces.directory, hreplaces.staging⟩⟩
    · by_cases hlong : output.Fits name
      · exact hlong
      · have hthere := (hreplaces.package name content hextension).mpr (.inr ⟨hlong, hfile⟩)
        rcases (hclaim.package name content hextension).mp hthere with ⟨p, hp, rfl, _⟩ | ⟨⟨⟩, _⟩
        exact (hcompleted.pending.inPlaceMovable _ (List.mem_map_of_mem hp)).destination
    · rw [hreplaces.package name content hextension]
      constructor
      · rintro (hnew | ⟨hlong, hfile⟩)
        · exact .inl hnew
        · exact absurd (hfits name content hextension hfile) hlong
      · rintro (hnew | ⟨⟨⟩, _⟩)
        exact .inl hnew

/-- An old package, a file of another kind, and a directory called like a package. -/
def crowded : Disk :=
  ⟨.directory [("out", .directory
    [("api.json", .file "old".toUTF8), ("notes.txt", .file "keep".toUTF8),
      ("stale.json", .file "old".toUTF8), ("x.json", .directory [])])], []⟩

theorem publish_ok_crowded :
    crowded.WellFormed ∧ (∀ p ∈ [packageOf "api"], Manifest.validAgentId p.id = true) ∧
    (([packageOf "api"] : List Package).map (·.id)).Nodup ∧
    ∃ written, publish ⟨"out"⟩ [packageOf "api"] crowded =
        (.ok written, (publish ⟨"out"⟩ [packageOf "api"] crowded).2) ∧
      Replaces ⟨"out"⟩ [packageOf "api"] (fun name => ¬ (⟨"out"⟩ : Path).Fits name) crowded
        (publish ⟨"out"⟩ [packageOf "api"] crowded).2 := by
  have hd : crowded.WellFormed := by decide
  have hids : ∀ p ∈ [packageOf "api"], Manifest.validAgentId p.id = true := by decide
  have hdistinct : (([packageOf "api"] : List Package).map (·.id)).Nodup := by decide
  have hrun : (publish ⟨"out"⟩ [packageOf "api"] crowded).1.isOk = true := by decide +kernel
  cases hresult : (publish ⟨"out"⟩ [packageOf "api"] crowded).1 with
  | error e =>
    rw [hresult] at hrun
    cases hrun
  | ok written =>
    have h : publish ⟨"out"⟩ [packageOf "api"] crowded =
        (.ok written, (publish ⟨"out"⟩ [packageOf "api"] crowded).2) := outcome_eq hresult
    exact ⟨hd, hids, hdistinct, written, h, (publish_ok hd hids hdistinct h).2.1⟩

end Rulebook.Publication
