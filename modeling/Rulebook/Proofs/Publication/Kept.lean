import Rulebook.Proofs.Basic
import Rulebook.Proofs.Publication.Reading

/-!
# What a publication keeps

Outside the staging place a publication keeps every directory, and every file that is no package of the
output directory. What leads there without leading through the staging place still does so, and
nothing else can still be read.
-/

namespace Rulebook.Publication

set_option autoImplicit false

/-- Where the packages of an output directory are. -/
def IsPackagePlace (output : Path) (here l : Location) : Prop :=
  ∃ name, (⟨name⟩ : Path).extension? = some "json" ∧ l = output.placeFrom here ++ [name]

structure Keeps (output : Path) (d d' : Disk) : Prop where
  wellFormed : d'.WellFormed
  here : d'.here = d.here
  directory : ∀ l, Outside (stagingPlace output d.here) l → d.kind? l = some .directory →
    d'.kind? l = some .directory
  file_iff : ∀ l content, Outside (stagingPlace output d.here) l →
    ¬ IsPackagePlace output d.here l →
    (d'.kind? l = some (.file content) ↔ d.kind? l = some (.file content))
  staging : ∀ l, stagingPlace output d.here <+: l → d'.kind? l = none

variable {output p : Path} {d d' : Disk} {l : Location}

theorem Completed.keeps {packages : List Package} {dStaged d₁ d₂ dEnd : Disk} {O : Location}
    {names : List String} (h : Completed output packages d dStaged d₁ d₂ dEnd O names)
    (hids : ∀ p ∈ packages, Manifest.validAgentId p.id = true)
    (hdistinct : (packages.map (·.id)).Nodup) : Keeps output d (discard output dEnd) := by
  have hreplaces := h.replaces hids hdistinct
  have hdiscarded := h.discarded
  obtain ⟨_, hwellFormed⟩ := discard_spec output h.pending.inPlace.wellFormed
  -- the disk that is left is described by now and need not be computed
  generalize discard output dEnd = dAfter at *
  refine ⟨hwellFormed, hreplaces.here, fun l hl hdirectory => ?_, fun l content hl hplace => ?_,
    hreplaces.staging⟩
  · rw [hdiscarded, if_neg hl]
    exact h.pending.directory (h.gainsBefore.directory hl hdirectory)
  · rcases hreplaces.elsewhere l hl fun name hname heq => absurd ⟨name, hname, heq⟩ hplace with
      heq | ⟨hnone, hdirectory⟩
    · rw [heq]
    · rw [hnone, hdirectory]
      simp

namespace Keeps

theorem outside_of_isSome (h : Keeps output d d') (hl : (d'.kind? l).isSome) :
    Outside (stagingPlace output d.here) l := by
  intro hstaging
  rw [h.staging l hstaging] at hl
  cases hl

theorem locate (h : Keeps output d d') (hp : p.Avoids d.here (stagingPlace output d.here))
    (hlocate : d.locate p = .ok l) (hl : (d'.kind? l).isSome) : d'.locate p = .ok l :=
  Disk.locate_mono hlocate h.here (fun m hm => h.directory m (hp m hm)) fun _ => hl

theorem leads (h : Keeps output d d') (hp : p.Avoids d.here (stagingPlace output d.here))
    (hleads : d.Leads p l) : d'.Leads p l := by
  have hl : l ∈ p.way d.here := by
    rw [hleads.place]
    exact Path.end_mem_wayAlong _ _
  have hdirectory := h.directory l (hp l hl) hleads.directory
  exact ⟨h.locate hp hleads.located (by rw [hdirectory]; rfl), hdirectory⟩

/-- What can still be found does not lie behind the staging place. -/
theorem avoids (h : Keeps output d d') (hlocate : d'.locate p = .ok l) (hl : (d'.kind? l).isSome) :
    p.Avoids d.here (stagingPlace output d.here) := by
  intro m hm
  rw [← h.here] at hm
  exact h.outside_of_isSome (Disk.isSome_of_locate hlocate hl m hm)

theorem avoids_of_read (h : Keeps output d d') {content : ByteArray}
    (hread : d'.read p = .ok content) : p.Avoids d.here (stagingPlace output d.here) := by
  obtain ⟨l, hlocate, hfile⟩ := (Disk.read_ok_iff p content).mp hread
  exact h.avoids hlocate (by rw [hfile]; rfl)

theorem read (h : Keeps output d d') (hp : p.Avoids d.here (stagingPlace output d.here))
    (hplace : ¬ IsPackagePlace output d.here (p.placeFrom d.here)) {content : ByteArray}
    (hread : d.read p = .ok content) : d'.read p = .ok content := by
  apply Disk.read_mono hread h.here
  · intro m hm hdirectory
    exact h.directory m (hp m hm) hdirectory
  · exact (h.file_iff _ content hp.outside hplace).mpr (Disk.file_of_read hread)

theorem readText (h : Keeps output d d') (hp : p.Avoids d.here (stagingPlace output d.here))
    (hplace : ¬ IsPackagePlace output d.here (p.placeFrom d.here)) {text : String}
    (hread : d.readText p = .ok text) : d'.readText p = .ok text := by
  rw [Disk.readText] at hread ⊢
  obtain ⟨content, hcontent, htext⟩ := Except.bind_ok hread
  rw [h.read hp hplace hcontent]
  exact htext

end Keeps

end Rulebook.Publication
