import Rulebook.Package.Publication
import Rulebook.Proofs.Disk.Directories

/-!
# The places a publication works in

The staging directory stands beside the output directory, so the output directory is never in it. What
is outside the staging place is what a publication answers for.
-/

namespace Rulebook

set_option autoImplicit false

namespace Path

theorem isComponent_of_mem_namedComponents {pieces : List (List Char)} {name : String}
    (hpieces : ∀ piece ∈ pieces, '/' ∉ piece) (h : .name name ∈ namedComponents pieces) :
    IsComponent name := by
  obtain ⟨piece, hpiece, hname⟩ := List.mem_filterMap.mp h
  have hname : namedComponents [piece] = [.name name] := by
    rw [namedComponents, List.filterMap_cons, hname]
    rfl
  by_cases hnoise : isNoise piece = true
  · rw [namedComponents_noise hnoise] at hname
    cases hname
  · rw [Bool.not_eq_true] at hnoise
    rcases namedComponents_singleton hnoise with ⟨_, hup⟩ | ⟨hempty, hhere, hup, hsame⟩
    · rw [hup] at hname
      cases hname
    · rw [hsame] at hname
      cases hname
      exact ⟨hempty, hhere, hup, by rw [String.toList_ofList]; exact hpieces piece hpiece⟩

theorem isComponent_of_fileName? {p : Path} {name : String} (h : p.fileName? = some name) :
    IsComponent name := by
  have hlast : p.components.getLast? = some (.name name) := by
    unfold fileName? at h
    split at h
    · rename_i heq
      cases h
      exact heq
    · cases h
  have hmem := List.mem_of_getLast? hlast
  rw [components_eq, List.mem_append] at hmem
  rcases hmem with hmem | hmem
  · unfold lead at hmem
    split at hmem <;> simp at hmem
  · exact isComponent_of_mem_namedComponents (fun piece => noSlash_of_mem_slashPieces) hmem

end Path

namespace Publication

def stagingName (output : Path) : String :=
  "." ++ output.fileName?.getD "packages" ++ ".staging"

/-- Where the staging directory is. -/
def stagingPlace (output : Path) (here : Location) : Location := (stagingOf output).placeFrom here

/-- Not at a location and not below it. -/
def Outside (place : Location) : Location → Prop := fun l => ¬ place <+: l

instance (place l : Location) : Decidable (Outside place l) :=
  inferInstanceAs (Decidable (¬ _))

theorem isComponent_stagingName (output : Path) : IsComponent (stagingName output) := by
  have hname : '/' ∉ (output.fileName?.getD "packages").toList := by
    cases h : output.fileName? with
    | none => decide
    | some name => exact (Path.isComponent_of_fileName? h).noSlash
  have hlist : (stagingName output).toList =
      '.' :: ((output.fileName?.getD "packages").toList ++ ".staging".toList) := by
    simp [stagingName]
  have hne (s : String) (hs : s.toList.length ≤ 2) : stagingName output ≠ s := by
    intro heq
    have hlength : (stagingName output).toList.length = s.toList.length := by rw [heq]
    rw [hlist] at hlength
    simp at hlength
    omega
  refine ⟨hne "" (by decide), hne "." (by decide), hne ".." (by decide), ?_⟩
  rw [hlist]
  simp [hname]

theorem parentOf_nonempty (output : Path) : (parentOf output).text ≠ "" := by
  unfold parentOf
  split
  · split
    · decide
    · rename_i h
      rw [String.isEmpty_iff] at h
      exact h
  · decide

theorem stagingPlace_eq (output : Path) (here : Location) :
    stagingPlace output here = (parentOf output).placeFrom here ++ [stagingName output] :=
  Path.placeFrom_join (isComponent_stagingName output) (parentOf_nonempty output) here

theorem stagingPlace_of_leads {output : Path} {d : Disk} {l : Location}
    (h : d.Leads (stagingOf output) l) : l = stagingPlace output d.here :=
  h.place

theorem stagingPlace_join {name : String} (hname : IsComponent name) (output : Path)
    (here : Location) :
    ((stagingOf output).join ⟨name⟩).placeFrom here = stagingPlace output here ++ [name] :=
  Path.placeFrom_join hname
    (Path.join_ne_empty (isComponent_stagingName output).noSlash (parentOf_nonempty output)) here

-- the place is never computed below, only compared
attribute [irreducible] stagingPlace

theorem placeFrom_parentOf {output above : Path} (here : Location)
    (h : output.parent? = some above) :
    (parentOf output).placeFrom here = above.placeFrom here := by
  unfold parentOf
  rw [h]
  dsimp only
  split
  · rename_i hempty
    rw [String.isEmpty_iff] at hempty
    obtain ⟨text⟩ := above
    cases hempty
    rfl
  · rfl

theorem outside_output (output : Path) (here : Location) :
    Outside (stagingPlace output here) (output.placeFrom here) := by
  intro hprefix
  rw [stagingPlace_eq] at hprefix
  have hlength := List.IsPrefix.length_le hprefix
  rw [List.length_append, List.length_singleton] at hlength
  cases habove : output.parent? with
  | none =>
    have hhere : (parentOf output).placeFrom here = here := by
      unfold parentOf
      rw [habove]
      rfl
    have hshort := (Path.placeFrom_of_noParent here habove).2
    rw [hhere] at hlength
    omega
  | some above =>
    rw [placeFrom_parentOf here habove] at hprefix hlength
    rcases Path.placeFrom_parent here habove with ⟨name, hname, hplace⟩ | ⟨_, hshort⟩
    · rw [hplace] at hprefix
      have heq := List.IsPrefix.eq_of_length hprefix (by simp)
      have hlast : stagingName output = name := by simpa using heq
      rw [stagingName, hname] at hlast
      have hlengths := congrArg (fun s => s.toList.length) hlast
      simp [String.toList_append] at hlengths
      omega
    · omega

theorem outside_of_leads {output : Path} {d : Disk} {l : Location} (h : d.Leads output l) :
    Outside (stagingPlace output d.here) l := by
  rw [h.place]
  exact outside_output output d.here

theorem outside_join {place l : Location} {name : String} (h : Outside place l)
    (hplace : place ≠ l ++ [name]) : Outside place (l ++ [name]) := by
  intro hprefix
  rcases List.prefix_concat_iff.mp hprefix with heq | hprefix
  · exact hplace (by simpa using heq)
  · exact h hprefix

end Publication

end Rulebook
