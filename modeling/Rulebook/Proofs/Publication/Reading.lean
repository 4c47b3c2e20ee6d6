import Rulebook.Proofs.Publication.Outcome

/-!
# Reading what was published

The published paths lead to the packages as long as the output path does not lead through the staging
directory, which is gone after the publication.
-/

namespace Rulebook

set_option autoImplicit false

namespace Disk

variable {d : Disk}

theorem read_ok_iff (p : Path) (content : ByteArray) :
    d.read p = .ok content ↔ ∃ l, d.locate p = .ok l ∧ d.kind? l = some (.file content) := by
  rw [read]
  cases hfetch : d.fetch p with
  | error e =>
    simp only [bind, Except.bind, reduceCtorEq, false_iff]
    rintro ⟨l, hlocate, hfile⟩
    rw [(fetch_ok_iff p _).mpr ⟨l, hlocate, (kind?_eq_file_iff l content).mp hfile⟩] at hfetch
    cases hfetch
  | ok e =>
    obtain ⟨l, hlocate, hentry⟩ := (fetch_ok_iff p e).mp hfetch
    have hl (m : Location) : d.locate p = .ok m ↔ l = m := by
      rw [hlocate, Except.ok.injEq]
    simp only [hl, exists_eq_left', kind?_eq, hentry, Option.map_some]
    cases e with
    | file other => simp [bind, Except.bind, pure, Except.pure, Entry.kind]
    | directory entries =>
      simp [bind, Except.bind, throw, throwThe, MonadExceptOf.throw, Entry.kind]

theorem read_join_iff {base : Path} {name : String} (hname : IsName name) (hbase : base.text ≠ "")
    (hfits : base.Fits name) (content : ByteArray) :
    d.read (base.join ⟨name⟩) = .ok content ↔
      ∃ l, d.Leads base l ∧ d.kind? (l ++ [name]) = some (.file content) := by
  rw [read_ok_iff]
  constructor
  · rintro ⟨m, hlocate, hfile⟩
    obtain ⟨l, hleads, rfl, _⟩ := (locate_join_iff hname.toIsComponent hbase m).mp hlocate
    exact ⟨l, hleads, hfile⟩
  · rintro ⟨l, hleads, hfile⟩
    exact ⟨l ++ [name], (locate_join_iff hname.toIsComponent hbase _).mpr
      ⟨l, hleads, rfl, hname, hfits, by rw [hfile]; rfl⟩, hfile⟩

/-- A file that can be read is where its path leads. -/
theorem file_of_read {p : Path} {content : ByteArray} (h : d.read p = .ok content) :
    d.kind? (p.placeFrom d.here) = some (.file content) := by
  obtain ⟨l, hlocate, hfile⟩ := (read_ok_iff p content).mp h
  rwa [← locate_place hlocate]

/-- What can be read stays so as long as the file is there and the way to it open. -/
theorem read_mono {d' : Disk} {p : Path} {content : ByteArray} (h : d.read p = .ok content)
    (hhere : d'.here = d.here)
    (hway : ∀ m ∈ p.way d.here, d.kind? m = some .directory → d'.kind? m = some .directory)
    (hfile : d'.kind? (p.placeFrom d.here) = some (.file content)) : d'.read p = .ok content := by
  obtain ⟨l, hlocate, -⟩ := (read_ok_iff p content).mp h
  rw [← locate_place hlocate] at hfile
  refine (read_ok_iff p content).mpr ⟨l, ?_, hfile⟩
  exact locate_mono hlocate hhere hway fun _ => by rw [hfile]; rfl

end Disk

/-- The path does not lead through a place, wherever it leads. -/
def Path.Avoids (p : Path) (here place : Location) : Prop :=
  ∀ m ∈ p.way here, Publication.Outside place m

instance (p : Path) (here place : Location) : Decidable (p.Avoids here place) :=
  inferInstanceAs (Decidable (∀ m ∈ p.way here, Publication.Outside place m))

theorem Path.Avoids.outside {p : Path} {here place : Location} (h : p.Avoids here place) :
    Publication.Outside place (p.placeFrom here) :=
  h _ (Path.end_mem_wayAlong _ _)

/-- New directories keep nothing from being read. -/
theorem Disk.GainsDirectories.read {d d' : Disk} {p : Path} {place : Location}
    (h : d.GainsDirectories (Publication.Outside place) d') (hp : p.Avoids d.here place)
    {content : ByteArray} (hread : d.read p = .ok content) : d'.read p = .ok content := by
  apply Disk.read_mono hread h.here
  · intro m hm hdirectory
    exact h.directory (hp m hm) hdirectory
  · exact (h.file_iff hp.outside content).mpr (Disk.file_of_read hread)

namespace Publication.Completed

variable {output : Path} {d : Disk} {packages : List Package} {dStaged d₁ d₂ dEnd : Disk}
  {O : Location} {names : List String}

theorem leads_iff (h : Completed output packages d dStaged d₁ d₂ dEnd O names) :
    (∃ l, (discard output dEnd).Leads output l) ↔
      output.Avoids d.here (stagingPlace output d.here) := by
  have hhere : (discard output dEnd).here = d.here :=
    (discard_spec output h.pending.inPlace.wellFormed).1.here.trans h.here.2
  constructor
  · rintro ⟨l, hleads⟩ m hm hprefix
    rw [← hhere] at hm
    have hdirectory := hleads.way m hm
    rw [h.discarded, if_pos hprefix] at hdirectory
    cases hdirectory
  · intro havoids
    have hleads := h.pending.leadsStill h.pending.leads
    have hend : (discard output dEnd).kind? O = some .directory := by
      rw [h.discarded, if_neg, hleads.directory]
      rw [h.place]
      exact outside_output output d.here
    refine ⟨O, Disk.locate_mono hleads.located (hhere.trans h.here.2.symm) (fun m hm hdirectory => ?_)
      fun _ => by rw [hend]; rfl, hend⟩
    rw [h.here.2] at hm
    rw [h.discarded, if_neg (havoids m hm), hdirectory]

/-- A published path leads to its package unless the output path leads through the staging place. -/
theorem read_iff (h : Completed output packages d dStaged d₁ d₂ dEnd O names)
    (hids : ∀ p ∈ packages, Manifest.validAgentId p.id = true)
    (hdistinct : (packages.map (·.id)).Nodup) {p : Package} (hp : p ∈ packages) :
    (discard output dEnd).read (output.join ⟨p.fileName⟩) = .ok p.bytes ↔
      output.Avoids d.here (stagingPlace output d.here) := by
  have hmovable := h.pending.inPlaceMovable p.fileName (List.mem_map_of_mem hp)
  rw [← h.leads_iff, Disk.read_join_iff hmovable.isName h.pending.leads.nonempty
    hmovable.destination]
  constructor
  · rintro ⟨l, hleads, _⟩
    exact ⟨l, hleads⟩
  · rintro ⟨l, hleads⟩
    have hhere : (discard output dEnd).here = d.here :=
      (discard_spec output h.pending.inPlace.wellFormed).1.here.trans h.here.2
    have hl : l = O := by rw [hleads.place, hhere, h.place]
    subst hl
    have hO : Outside (stagingPlace output d.here) l := by
      rw [h.place]
      exact outside_output output d.here
    refine ⟨l, hleads, ?_⟩
    rw [h.discarded, if_neg (outside_file hO (extension?_fileName (hids p hp))),
      h.installed (nodup_fileNames hdistinct) hp]

end Publication.Completed

end Rulebook
