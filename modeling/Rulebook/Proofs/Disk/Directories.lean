import Rulebook.Proofs.Disk.Operations

/-!
# Creating directories

Creating a directory with those above it changes nothing but that directories appear, whether or not
it comes to its end.
-/

namespace Rulebook.Disk

set_option autoImplicit false

variable {d d' d'' : Disk} {region : Location → Prop}

/-- In a region nothing changes but that directories appear. -/
structure GainsDirectories (region : Location → Prop) (d d' : Disk) : Prop where
  here : d'.here = d.here
  view : ∀ l, region l →
    d'.kind? l = d.kind? l ∨ (d.kind? l = none ∧ d'.kind? l = some .directory)

namespace GainsDirectories

theorem refl (region : Location → Prop) (d : Disk) : d.GainsDirectories region d :=
  ⟨rfl, fun _ _ => .inl rfl⟩

theorem trans (h : d.GainsDirectories region d') (h' : d'.GainsDirectories region d'') :
    d.GainsDirectories region d'' := by
  refine ⟨h'.here.trans h.here, fun l hl => ?_⟩
  rcases h.view l hl with heq | ⟨hnone, hdirectory⟩
  · rw [← heq]
    exact h'.view l hl
  · rcases h'.view l hl with heq' | ⟨hnone', _⟩
    · exact .inr ⟨hnone, heq'.trans hdirectory⟩
    · rw [hdirectory] at hnone'
      cases hnone'

theorem mono {smaller : Location → Prop} (h : d.GainsDirectories region d')
    (hregion : ∀ l, smaller l → region l) : d.GainsDirectories smaller d' :=
  ⟨h.here, fun l hl => h.view l (hregion l hl)⟩

theorem directory (h : d.GainsDirectories region d') {l : Location} (hl : region l)
    (hdirectory : d.kind? l = some .directory) : d'.kind? l = some .directory := by
  rcases h.view l hl with heq | ⟨hnone, _⟩
  · rw [heq, hdirectory]
  · rw [hdirectory] at hnone
    cases hnone

theorem file_iff (h : d.GainsDirectories region d') {l : Location} (hl : region l)
    (content : ByteArray) :
    d'.kind? l = some (.file content) ↔ d.kind? l = some (.file content) := by
  rcases h.view l hl with heq | ⟨hnone, hdirectory⟩
  · rw [heq]
  · rw [hnone, hdirectory]
    simp

end GainsDirectories

theorem Sets.gainsDirectories {l : Location} (h : d.Sets d' l (some .directory))
    (hl : d.kind? l = none) (region : Location → Prop) : d.GainsDirectories region d' := by
  refine ⟨h.here, fun m _ => ?_⟩
  rw [h.view]
  split
  · rename_i heq
    exact .inr ⟨heq ▸ hl, rfl⟩
  · exact .inl rfl

def everywhere : Location → Prop := fun _ => True

theorem makeDirectory_gains {p : Path} (h : d.makeDirectory p = .ok d') (hd : d.WellFormed) :
    d.GainsDirectories everywhere d' ∧ d'.WellFormed := by
  obtain ⟨t, _, _, hfree, hsets⟩ := makeDirectory_ok h
  exact ⟨hsets.gainsDirectories hfree everywhere, hsets.wellFormed hd⟩

theorem settle_gains (p : Path) (hd : d.WellFormed) :
    d.GainsDirectories everywhere (makeDirectories.settle p d).2 ∧
      (makeDirectories.settle p d).2.WellFormed := by
  rw [makeDirectories.settle]
  split
  · rename_i hmake
    exact makeDirectory_gains hmake hd
  · split
    · exact ⟨.refl _ d, hd⟩
    · exact ⟨.refl _ d, hd⟩

theorem settle_leads {p : Path} (h : makeDirectories.settle p d = (.ok (), d')) :
    ∃ l, d'.Leads p l := by
  rw [makeDirectories.settle] at h
  split at h
  · rename_i hmake
    cases h
    exact makeDirectory_leads hmake
  · split at h
    · rename_i hdirectory
      cases h
      exact (isDirectory_iff p).mp hdirectory
    · cases h

theorem makeDirectories_gains (fuel : Nat) (p : Path) (hd : d.WellFormed) :
    d.GainsDirectories everywhere (makeDirectories fuel p d).2 ∧
      (makeDirectories fuel p d).2.WellFormed := by
  induction fuel generalizing p d with
  | zero => exact ⟨.refl _ d, hd⟩
  | succ fuel ih =>
    rw [makeDirectories]
    split
    · exact ⟨.refl _ d, hd⟩
    · split
      · rename_i hmake
        exact makeDirectory_gains hmake hd
      · split
        · exact ⟨.refl _ d, hd⟩
        · rename_i above _
          have habove := ih above hd
          split
          · rename_i hrun
            rw [hrun] at habove
            exact habove
          · rename_i hrun
            rw [hrun] at habove
            have hsettle := settle_gains p habove.2
            exact ⟨habove.1.trans hsettle.1, hsettle.2⟩
      · exact settle_gains p hd

theorem makeDirectories_leads (fuel : Nat) {p : Path} (hp : p.text ≠ "")
    (h : makeDirectories fuel p d = (.ok (), d')) : ∃ l, d'.Leads p l := by
  cases fuel with
  | zero => cases h
  | succ fuel =>
    rw [makeDirectories] at h
    split at h
    · rename_i hempty
      exact absurd (String.isEmpty_iff.mp hempty) hp
    · split at h
      · rename_i hmake
        cases h
        exact makeDirectory_leads hmake
      · split at h
        · cases h
        · split at h
          · cases h
          · exact settle_leads h
      · exact settle_leads h

end Rulebook.Disk
