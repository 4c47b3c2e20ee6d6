import Rulebook.Proofs.Decode.Shape
import Rulebook.Proofs.Manifest
import Rulebook.Proofs.Package.Text

/-!
# Policy defaults of a manifest

The defaults of an agent may be any values. They are in order, and they lie so little deep that a
package with them can still be read: a manifest has its defaults four collections down, a package
three.
-/

namespace Rulebook

set_option autoImplicit false

open Yaml (Node)

/-- The defaults are in order and no deeper than that. -/
structure Policy.Fits (n : Nat) (policy : Policy) : Prop extends policy.IsOrdered where
  shallow : Json.depthMembers policy.defaults ≤ n

namespace Policy

theorem fits_blank (n : Nat) : Fits n default :=
  ⟨⟨.nil, fun _ hentry => nomatch hentry⟩, Nat.zero_le _⟩

theorem decode_fits {n : Nat} {source : Source} {policy : Policy} (hdepth : source.depth ≤ n + 2)
    (h : decode .yaml source = .ok policy) : policy.Fits n := by
  refine Decode.Layout.decode_induct (P := Fits n) rfl (fits_blank n) ?_ hdepth h
  intro value name part value' hvalue hpart hput
  simp only [layout] at hput
  split at hput
  · obtain ⟨targets, _, hput⟩ := Except.bind_ok hput
    cases hput
    exact ⟨⟨hvalue.defaults, hvalue.values⟩, hvalue.shallow⟩
  · obtain ⟨defaults, hdefaults, hput⟩ := Except.bind_ok hput
    cases hput
    obtain ⟨hrising, hvalues⟩ := Decode.keyed_json_shape hpart hdefaults
    exact ⟨⟨hrising, fun entry hentry => (hvalues entry hentry).1⟩,
      Json.depthMembers_le_iff.mpr fun entry hentry => (hvalues entry hentry).2⟩
  · cases hput
    exact hvalue

end Policy

theorem EntrySpec.decode_fits {n : Nat} {entry : Node} {spec : EntrySpec}
    (hdepth : entry.depth ≤ n + 3) (h : decode entry = .ok spec) : spec.policy.Fits n := by
  rw [← Yaml.Node.depth_toSource] at hdepth
  refine Decode.Layout.decode_induct (P := fun spec => spec.policy.Fits n) rfl
    (Policy.fits_blank n) ?_ hdepth h
  intro value name part value' hvalue hpart hput
  simp only [layout] at hput
  split at hput
  · obtain ⟨_, _, hput⟩ := Except.bind_ok hput
    cases hput
    exact hvalue
  · obtain ⟨_, _, hput⟩ := Except.bind_ok hput
    cases hput
    exact hvalue
  · obtain ⟨policy, hpolicy, hput⟩ := Except.bind_ok hput
    cases hput
    exact Policy.decode_fits hpart hpolicy
  · cases hput
    exact hvalue

namespace Manifest

theorem depth_of_agentTable {root : Node} {entries : Entries} (h : agentTable root = some entries)
    {entry : Node × Node} (hentry : entry ∈ entries) : entry.2.depth + 1 ≤ root.depth := by
  have hin {n : Node} {entries : Entries} (h : n.entries? = some entries) {entry : Node × Node}
      (hentry : entry ∈ entries) : entry.2.depth + 1 ≤ n.depth := by
    rw [Node.depth_of_entries? h]
    exact Nat.succ_le_succ (Node.depthEntries_le_iff.mp (Nat.le_refl _) entry hentry)
  rw [agentTable] at h
  split at h
  · cases h
  · rename_i outer houter
    dsimp only at h
    split at h
    · rename_i inner hinner
      split at h
      · cases h
        exact hin houter hentry
      · cases h
        -- the entries lie in the value of the wrapper's only key
        split at hinner
        · obtain ⟨wrapped, hvalue, hinner⟩ := Option.bind_eq_some_iff.mp hinner
          have hwrapped := hin hinner hentry
          have hdepth := Node.depth_valueOf? hvalue
          rw [Node.depth_of_entries? houter]
          omega
        · cases hinner
    · cases h
      exact hin houter hentry

theorem policy_fits_of_ofNode {path : Path} {root : Node} {manifest : Manifest} {n : Nat}
    (hdepth : root.depth ≤ n + 4) (h : ofNode path root = .ok manifest) :
    ∀ agent ∈ manifest.agents, agent.policy.Fits n := by
  intro agent hagent
  obtain ⟨entries, entry, htable, hentry, -, hcheck⟩ := exists_entry_of_ofNode h hagent
  obtain ⟨spec, hspec, _, _, hagent⟩ := checkEntry_ok hcheck
  have hshallow := depth_of_agentTable htable hentry
  rw [hagent]
  exact EntrySpec.decode_fits (by omega) hspec

end Manifest

/-- How deep the defaults of an accepted manifest may lie. -/
def mostDefaults : Nat := Yaml.mostCollections - 4

theorem Disk.policy_fits_of_loadManifest {d : Disk} {path : Path} {manifest : Manifest}
    (h : d.loadManifest path = .ok manifest) :
    ∀ agent ∈ manifest.agents, agent.policy.Fits mostDefaults := by
  rw [Disk.loadManifest] at h
  split at h
  · rw [Manifest.parse] at h
    split at h
    · rename_i root hparse
      exact Manifest.policy_fits_of_ofNode (Node.depth_parse hparse) h
    · cases h
  · cases h

end Rulebook
