import Rulebook.Proofs.Card.Canonical
import Rulebook.Proofs.Corpus.Digest
import Rulebook.Proofs.Package.Recompile

/-!
# A source digest pins the cards

Two packages that agree with themselves and record one digest have the same cards, unless the hash gives
one digest to two different texts. Nothing is asked of the ids in a package: they may be any texts.
-/

namespace Rulebook.Package

set_option autoImplicit false

variable {p q : Package}

/-- Different texts of one kind that are hashed for the two packages have different digests. -/
structure ToldApart (p q : Package) : Prop where
  cards : ∀ a ∈ p.rulesDetail, ∀ b ∈ q.rulesDetail,
    a.contentHash = b.contentHash → a.toJson.canonical = b.toJson.canonical
  contents : Digest.ofText (digestText p.contents) = Digest.ofText (digestText q.contents) →
    digestText p.contents = digestText q.contents

/-- Cards whose tables are in order and whose defaults hold no doubles. -/
structure HasPlainCards (p : Package) : Prop where
  ordered : ∀ card ∈ p.rulesDetail, card.IsOrdered
  integral : ∀ card ∈ p.rulesDetail, Json.membersIntegral card.defaults = true

theorem card_eq_of_contentHash_eq (h : ToldApart p q) (hp : p.HasPlainCards) (hq : q.HasPlainCards)
    {a b : Card} (ha : a ∈ p.rulesDetail) (hb : b ∈ q.rulesDetail)
    (heq : a.contentHash = b.contentHash) : a = b :=
  Card.eq_of_canonical_eq (hp.ordered a ha) (hq.ordered b hb) (hp.integral a ha) (hq.integral b hb)
    (h.cards a ha b hb heq)

theorem rising_contents (h : p.IsConsistent) : (p.contents.map (·.1)).Pairwise (· < ·) := by
  rw [ids_contents, ← h.aligned]
  exact h.rising

theorem length_of_mem_contents {pair : String × String} (h : pair ∈ p.contents) :
    pair.2.length = 64 := by
  obtain ⟨card, _, rfl⟩ := List.mem_map.mp h
  exact Digest.length_ofBytes _

theorem contents_eq_of_digestText_eq (h : ToldApart p q) (hp : p.HasPlainCards)
    (hq : q.HasPlainCards) (hpc : p.IsConsistent) (hqc : q.IsConsistent)
    (heq : digestText p.contents = digestText q.contents) : p.contents = q.contents := by
  refine eq_of_digestText_eq (rising_contents hpc) (rising_contents hqc)
    (fun _ => length_of_mem_contents) (fun _ => length_of_mem_contents) ?_ heq
  intro x hx y hy hhash
  obtain ⟨a, ha, rfl⟩ := List.mem_map.mp hx
  obtain ⟨b, hb, rfl⟩ := List.mem_map.mp hy
  rw [card_eq_of_contentHash_eq h hp hq ha hb hhash]

/-- Packages in which nothing is found by themselves and that record one digest have the same rules,
cards and hooks. -/
theorem eq_of_sourceDigest_eq (hp : p.HasPlainCards) (hq : q.HasPlainCards)
    (hpclean : p.verify none = []) (hqclean : q.verify none = []) (h : ToldApart p q)
    (hdigest : p.sourceDigest = q.sourceDigest) :
    p.rules = q.rules ∧ p.rulesDetail = q.rulesDetail ∧ p.validationHooks = q.validationHooks := by
  have hpc := verify_none_eq_nil_iff.mp hpclean
  have hqc := verify_none_eq_nil_iff.mp hqclean
  have hcomputed : p.computedDigest = q.computedDigest := by rw [hpc.digest, hqc.digest, hdigest]
  have hcontents : p.contents = q.contents :=
    contents_eq_of_digestText_eq h hp hq hpc hqc (h.contents hcomputed)
  have hcards : p.rulesDetail = q.rulesDetail :=
    eq_of_map_eq (fun a ha b hb hpair =>
      card_eq_of_contentHash_eq h hp hq ha hb (Prod.mk.inj hpair).2) hcontents
  refine ⟨?_, hcards, ?_⟩
  · rw [hpc.aligned, hqc.aligned, hcards]
  · rw [← hpc.hooks, ← hqc.hooks, hcards]

/-- A card whose id looks like the end of one line and the beginning of another. -/
def framed : Card :=
  ⟨"A:\nB", "", .low, "", "", [], [], [("t", ["x"])], [""], [], true, [("k", .bool true)]⟩

/-- The package of that card alone, under some name. -/
def framedAs (name : String) : Package :=
  ofCards ⟨name, name, ⟨[]⟩, ⟨[], []⟩⟩ [.ofCard framed default] ⟨0, name⟩ name

theorem eq_of_sourceDigest_eq_framed :
    framedAs "p" ≠ framedAs "q" ∧ (framedAs "p").sourceDigest = (framedAs "q").sourceDigest ∧
      (framedAs "p").rulesDetail = (framedAs "q").rulesDetail := by
  have hplain (name : String) : (framedAs name).HasPlainCards := by
    refine ⟨List.forall_mem_singleton.mpr ⟨by decide, by decide, by decide, ?_⟩,
      List.forall_mem_singleton.mpr rfl⟩
    exact List.forall_mem_singleton.mpr trivial
  have hclean (name : String) : (framedAs name).verify none = [] :=
    verify_none_eq_nil_iff.mpr (isConsistent_ofCards _ _ _ (List.cons_ne_nil _ _)
      (List.pairwise_singleton _ _) (List.forall_mem_singleton.mpr rfl))
  have htold : ToldApart (framedAs "p") (framedAs "q") := by
    refine ⟨?_, fun _ => rfl⟩
    rintro a ha b hb -
    rw [List.mem_singleton.mp ha, List.mem_singleton.mp hb]
  exact ⟨fun h => absurd (congrArg Package.id h) (by decide), rfl,
    (eq_of_sourceDigest_eq (hplain "p") (hplain "q") (hclean "p") (hclean "q") htold rfl).2.1⟩

end Rulebook.Package
