import Rulebook.Proofs.Disk.Open
import Rulebook.Proofs.Publication.Moves
import Rulebook.Manifest.Text

/-!
# Staging

Before anything in the output directory is touched, the staging directory is made anew and the packages
are written into it. Outside the staging place this only adds directories.
-/

namespace Rulebook.Publication

set_option autoImplicit false

variable {output : Path} {d d' : Disk}

theorem isName_new : IsName "new" := by decide

theorem isName_previous : IsName "previous" := by decide

theorem stagingOf_nonempty (output : Path) : (stagingOf output).text ≠ "" :=
  Path.join_ne_empty (isComponent_stagingName output).noSlash (parentOf_nonempty output)

theorem freshOf_nonempty (output : Path) : (freshOf output).text ≠ "" :=
  Path.join_ne_empty isName_new.noSlash (stagingOf_nonempty output)

theorem previousOf_nonempty (output : Path) : (previousOf output).text ≠ "" :=
  Path.join_ne_empty isName_previous.noSlash (stagingOf_nonempty output)

theorem leads_of_leads_join {base : Path} {name : String} {l : Location}
    (hname : IsComponent name) (hbase : base.text ≠ "") (h : d.Leads (base.join ⟨name⟩) l) :
    ∃ m, d.Leads base m ∧ l = m ++ [name] := by
  obtain ⟨m, hleads, hl, _⟩ := (Disk.locate_join_iff hname hbase l).mp h.located
  exact ⟨m, hleads, hl⟩

theorem leads_staging_of_fresh {l : Location} (h : d.Leads (freshOf output) l) :
    d.Leads (stagingOf output) (stagingPlace output d.here) := by
  obtain ⟨m, hleads, _⟩ :=
    leads_of_leads_join isName_new.toIsComponent (stagingOf_nonempty output) h
  exact stagingPlace_of_leads hleads ▸ hleads

def freshPlace (output : Path) (here : Location) : Location := stagingPlace output here ++ ["new"]

def previousPlace (output : Path) (here : Location) : Location :=
  stagingPlace output here ++ ["previous"]

/-- The staging directory is ready. -/
structure Ready (output : Path) (d : Disk) : Prop where
  wellFormed : d.WellFormed
  fresh : d.Leads (freshOf output) (freshPlace output d.here)
  previous : d.Leads (previousOf output) (previousPlace output d.here)

theorem freshPlace_eq {l : Location} (h : d.Leads (freshOf output) l) :
    l = freshPlace output d.here := by
  rw [h.place, freshPlace, freshOf, stagingPlace_join isName_new.toIsComponent]

theorem previousPlace_eq {l : Location} (h : d.Leads (previousOf output) l) :
    l = previousPlace output d.here := by
  rw [h.place, previousPlace, previousOf, stagingPlace_join isName_previous.toIsComponent]

theorem Ready.mono (h : Ready output d) (hd : d'.WellFormed) (hhere : d'.here = d.here)
    (hdirectory : ∀ l, d.kind? l = some .directory → d'.kind? l = some .directory) :
    Ready output d' := by
  refine ⟨hd, ?_, ?_⟩
  · rw [hhere]
    exact h.fresh.mono hhere hdirectory
  · rw [hhere]
    exact h.previous.mono hhere hdirectory

theorem makeDirectories_spec (p : Path) (hd : d.WellFormed) {result : Except CompileError Unit}
    (h : makeDirectories p d = (result, d')) :
    d.GainsDirectories Disk.everywhere d' ∧ d'.WellFormed ∧
      (result = .ok () → p.text ≠ "" → ∃ l, d'.Leads p l) := by
  have hgains := Disk.makeDirectories_gains (p.text.length + 1) p hd
  rw [makeDirectories] at h
  split at h
  · rename_i hmake
    cases h
    rw [hmake] at hgains
    exact ⟨hgains.1, hgains.2, fun _ hp => Disk.makeDirectories_leads _ hp hmake⟩
  · rename_i hmake
    cases h
    rw [hmake] at hgains
    exact ⟨hgains.1, hgains.2, by rintro ⟨⟩⟩

theorem makeDirectories_off {p : Path} (hd : d.WellFormed) {result : Except CompileError Unit}
    (h : makeDirectories p d = (result, d')) {l : Location} (hl : l ∉ p.way d.here) :
    d'.kind? l = d.kind? l := by
  have hoff := Disk.makeDirectories_off (p.text.length + 1) hd hl
  rw [makeDirectories] at h
  split at h
  · rename_i hmake
    cases h
    rw [← hoff, hmake]
  · rename_i hmake
    cases h
    rw [← hoff, hmake]

/-- Removing the staging directory changes nothing outside its place. -/
theorem removeStaging_spec (hd : d.WellFormed)
    (h : d.removeDirectory (stagingOf output) = .ok d') :
    d.GainsDirectories (Outside (stagingPlace output d.here)) d' ∧ d'.WellFormed ∧
      ∀ l, stagingPlace output d.here <+: l → d'.kind? l = none := by
  obtain ⟨place, hleads, rfl⟩ := (Disk.removeDirectory_ok_iff _).mp h
  have hplace : stagingPlace output d.here = place := (stagingPlace_of_leads hleads).symm
  have hne : place ≠ [] := by
    rw [← hplace, stagingPlace_eq]
    simp
  rw [hplace]
  refine ⟨⟨rfl, fun l hl => .inl ?_⟩, Disk.wellFormed_remove hd _, fun l hl => ?_⟩
  · rw [Disk.kind?_remove hd hne, if_neg hl]
  · rw [Disk.kind?_remove hd hne, if_pos hl]

theorem discard_spec (output : Path) (hd : d.WellFormed) :
    d.GainsDirectories (Outside (stagingPlace output d.here)) (discard output d) ∧
      (discard output d).WellFormed := by
  rw [discard]
  cases h : d.removeDirectory (stagingOf output) with
  | error e => exact ⟨.refl _ d, hd⟩
  | ok d' => exact ⟨(removeStaging_spec hd h).1, (removeStaging_spec hd h).2.1⟩

theorem prepare_spec (hd : d.WellFormed) {result : Except CompileError Unit}
    (h : prepare output d = (result, d')) :
    d.GainsDirectories (Outside (stagingPlace output d.here)) d' ∧
      (result = .ok () → Ready output d') := by
  have hregion : ∀ l, Outside (stagingPlace output d.here) l → Disk.everywhere l :=
    fun _ _ => trivial
  unfold prepare at h
  split at h
  · rename_i hparent
    cases h
    exact ⟨(makeDirectories_spec _ hd hparent).1.mono hregion, by rintro ⟨⟩⟩
  · rename_i d₁ hparent
    obtain ⟨hgains₁, hd₁, _⟩ := makeDirectories_spec _ hd hparent
    dsimp only at h
    split at h
    · cases h
      exact ⟨hgains₁.mono hregion, by rintro ⟨⟩⟩
    · rename_i d₂ hremove
      -- a staging directory that was left behind goes
      have hclear : d.GainsDirectories (Outside (stagingPlace output d.here)) d₂ ∧
          d₂.WellFormed := by
        split at hremove
        · have hspec := removeStaging_spec hd₁ hremove
          rw [hgains₁.here] at hspec
          exact ⟨(hgains₁.mono hregion).trans hspec.1, hspec.2.1⟩
        · cases hremove
          exact ⟨hgains₁.mono hregion, hd₁⟩
      obtain ⟨hgains₂, hd₂⟩ := hclear
      split at h
      · rename_i hfresh
        cases h
        exact ⟨hgains₂.trans ((makeDirectories_spec _ hd₂ hfresh).1.mono hregion), by rintro ⟨⟩⟩
      · rename_i d₃ hfresh
        obtain ⟨hgains₃, hd₃, hleads₃⟩ := makeDirectories_spec _ hd₂ hfresh
        obtain ⟨hgains₄, hd₄, hleads₄⟩ := makeDirectories_spec _ hd₃ h
        refine ⟨(hgains₂.trans (hgains₃.mono hregion)).trans (hgains₄.mono hregion), fun hok => ?_⟩
        obtain ⟨l, hl⟩ := hleads₃ rfl (freshOf_nonempty output)
        obtain ⟨m, hm⟩ := hleads₄ hok (previousOf_nonempty output)
        refine ⟨hd₄, ?_, previousPlace_eq hm ▸ hm⟩
        have hfresh := hl.mono hgains₄.here fun l => hgains₄.directory trivial
        exact freshPlace_eq hfresh ▸ hfresh

/-! ## Package files -/

theorem isComponent_fileName {p : Package} (h : Manifest.validAgentId p.id = true) :
    IsComponent p.fileName := by
  have hslash : '/' ∉ p.id.toList := by
    unfold Manifest.validAgentId at h
    split at h
    · cases h
    · rename_i c rest hid
      rw [hid]
      simp only [Bool.and_eq_true, List.all_eq_true] at h
      intro hmem
      rcases List.mem_cons.mp hmem with rfl | hmem
      · exact absurd h.1 (by decide)
      · exact absurd (h.2 _ hmem) (by decide)
  have hlist : p.fileName.toList = p.id.toList ++ ".json".toList := String.toList_append
  have hne (s : String) (hs : s.toList.length ≤ 2) : p.fileName ≠ s := by
    intro heq
    have hlength : p.fileName.toList.length = s.toList.length := by rw [heq]
    rw [hlist] at hlength
    simp at hlength
    omega
  refine ⟨hne "" (by decide), hne "." (by decide), hne ".." (by decide), ?_⟩
  rw [hlist, List.mem_append, not_or]
  exact ⟨hslash, by decide⟩

theorem extension?_fileName {p : Package} (h : Manifest.validAgentId p.id = true) :
    (⟨p.fileName⟩ : Path).extension? = some "json" := by
  have hid : p.id.toList ≠ [] := by
    intro hnil
    simp [Manifest.validAgentId, hnil] at h
  have hlist : p.fileName.toList = p.id.toList ++ ['.', 'j', 's', 'o', 'n'] := String.toList_append
  have hafter : (p.fileName.toList.reverse.takeWhile (· != '.')).reverse = ['j', 's', 'o', 'n'] := by
    rw [hlist, List.reverse_append]
    rfl
  have hlength : 5 < p.fileName.length := by
    have hpos := List.length_pos_iff.mpr hid
    rw [← String.length_toList, hlist, List.length_append]
    simp only [List.length_cons, List.length_nil]
    omega
  rw [Path.extension?, Path.fileName?_name (isComponent_fileName h), Option.bind_some]
  dsimp only
  rw [hafter, if_pos (by simpa using hlength)]

/-- A name with the ending of a package file is not that of the staging directory. -/
theorem ne_stagingName {name : String} (h : (⟨name⟩ : Path).extension? = some "json") :
    name ≠ stagingName output := by
  rintro rfl
  have hlist : (stagingName output).toList.reverse =
      'g' :: ".stagin".toList.reverse ++ ("." ++ output.fileName?.getD "packages").toList.reverse := by
    simp [stagingName]
  rw [Path.extension?, Path.fileName?_name (isComponent_stagingName output), Option.bind_some] at h
  dsimp only at h
  split at h
  · rw [Option.some.injEq] at h
    have hjson := congrArg (fun s => s.toList.reverse) h
    simp only [String.toList_ofList, List.reverse_reverse, hlist] at hjson
    cases hjson
  · cases h

theorem outside_file {O : Location} {here : Location}
    (hO : Outside (stagingPlace output here) O) {name : String}
    (h : (⟨name⟩ : Path).extension? = some "json") :
    Outside (stagingPlace output here) (O ++ [name]) := by
  refine outside_join hO fun heq => ?_
  rw [stagingPlace_eq] at heq
  have hlast : stagingName output = name := by
    have := congrArg List.getLast? heq
    simpa using this
  exact ne_stagingName h hlast.symm

/-- The packages have been written into the staging directory, as far as that went. -/
structure Staged (output : Path) (packages : List Package) (d d' : Disk) : Prop where
  here : d'.here = d.here
  wellFormed : d'.WellFormed
  directory : ∀ l, d.kind? l = some .directory → d'.kind? l = some .directory
  elsewhere : ∀ l, (∀ p ∈ packages, l ≠ freshPlace output d.here ++ [p.fileName]) →
    d'.kind? l = d.kind? l

theorem Staged.outside {packages : List Package} (h : Staged output packages d d') {l : Location}
    (hl : Outside (stagingPlace output d.here) l) : d'.kind? l = d.kind? l := by
  refine h.elsewhere l ?_
  rintro p _ rfl
  refine hl ?_
  rw [freshPlace, List.append_assoc]
  exact List.prefix_append _ _

theorem Staged.gains {packages : List Package} (h : Staged output packages d d') :
    d.GainsDirectories (Outside (stagingPlace output d.here)) d' :=
  ⟨h.here, fun _ hl => .inl (h.outside hl)⟩

theorem stage_cons (output : Path) (p : Package) (rest : List Package) (d : Disk) :
    stage output (p :: rest) d =
      match d.write ((freshOf output).join ⟨p.fileName⟩) p.bytes with
      | .ok d => stage output rest d
      | .error e => (.error (.io ((freshOf output).join ⟨p.fileName⟩) e.message), d) := by
  rfl

theorem stage_spec {packages : List Package} (hready : Ready output d)
    (hnames : ∀ p ∈ packages, IsComponent p.fileName) {result : Except CompileError Unit}
    (h : stage output packages d = (result, d')) :
    Staged output packages d d' ∧
      (result = .ok () → (packages.map (·.fileName)).Nodup → ∀ p ∈ packages,
        d'.kind? (freshPlace output d.here ++ [p.fileName]) = some (.file p.bytes)) := by
  induction packages generalizing d with
  | nil =>
    cases h
    exact ⟨⟨rfl, hready.wellFormed, fun _ hl => hl, fun _ _ => rfl⟩, by simp⟩
  | cons p packages ih =>
    rw [stage_cons] at h
    split at h
    · rename_i d₁ hwrite
      obtain ⟨_, _, hfree, hsets⟩ :=
        Disk.write_join_ok hready.fresh (hnames p List.mem_cons_self) hwrite
      have hdirectory : ∀ l, d.kind? l = some .directory → d₁.kind? l = some .directory :=
        fun l => hsets.directory hfree
      obtain ⟨hstaged, hfiles⟩ := ih
        (hready.mono (hsets.wellFormed hready.wellFormed) hsets.here hdirectory)
        (fun q hq => hnames q (List.mem_cons_of_mem _ hq)) h
      have helsewhere := hstaged.elsewhere
      rw [hsets.here] at hfiles helsewhere
      refine ⟨⟨hstaged.here.trans hsets.here, hstaged.wellFormed,
        fun l hl => hstaged.directory l (hdirectory l hl), fun l hl => ?_⟩, fun hok hnodup => ?_⟩
      · rw [helsewhere l fun q hq => hl q (List.mem_cons_of_mem _ hq), hsets.view,
          if_neg (hl p List.mem_cons_self)]
      · rw [List.map_cons, List.nodup_cons] at hnodup
        intro q hq
        rcases List.mem_cons.mp hq with rfl | hq
        · rw [helsewhere, hsets.view, if_pos rfl]
          intro other hother
          exact concat_ne_of_ne fun heq => hnodup.1 (heq ▸ List.mem_map_of_mem hother)
        · exact hfiles hok hnodup.2 q hq
    · cases h
      exact ⟨⟨rfl, hready.wellFormed, fun _ hl => hl, fun _ _ => rfl⟩, by rintro ⟨⟩⟩

end Rulebook.Publication
