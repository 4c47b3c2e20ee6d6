import Rulebook.Proofs.Build.Stages
import Rulebook.Proofs.Package.Recompile
import Rulebook.Proofs.Publication.Preparation

/-!
# Where packages are published

The package of an agent is published directly in the output directory, under a name that its id alone
decides. The ids of an accepted manifest have no capital letters, so no two agents share a path, not even
where letter case is ignored.
-/

namespace Rulebook

set_option autoImplicit false

open Manifest (validAgentId isAgentIdTail wrapperKey)
open Publication (published)

/-! ## Joined names -/

namespace Path

/-- The path of a file in a directory. -/
structure IsIn (p directory : Path) (name : String) : Prop where
  components : p.components = directory.components ++ [.name name]
  parent : ∃ above, p.parent? = some above ∧ above.components = directory.components
  place : ∀ here, p.placeFrom here = directory.placeFrom here ++ [name]
  fileName : p.fileName? = some name

theorem isIn_join {name : String} (hname : IsComponent name) (directory : Path) :
    (directory.join ⟨name⟩).IsIn directory name := by
  have hcomponents := components_join hname directory
  constructor
  · exact hcomponents
  · cases hparent : (directory.join ⟨name⟩).parent? with
    | none =>
      exfalso
      rcases components_of_noParent hparent with hnone | hroot
      · rw [hnone] at hcomponents
        exact List.concat_ne_nil _ _ hcomponents.symm
      · rw [hroot] at hcomponents
        have hlast := congrArg List.getLast? hcomponents
        rw [List.getLast?_concat] at hlast
        cases hlast
    | some above =>
      refine ⟨above, rfl, ?_⟩
      rw [(components_parent hparent).2.2, hcomponents, List.dropLast_concat]
  · intro here
    rw [placeFrom_eq, placeFrom_eq, hcomponents, List.foldl_concat]
    rfl
  · exact fileName?_join hname directory

/-- What a joined name has in front of it is the same for every name. -/
theorem text_join_eq (directory : Path) :
    ∃ front, ∀ name : String, '/' ∉ name.toList → (directory.join ⟨name⟩).text = front ++ name := by
  by_cases hempty : directory.text = ""
  · refine ⟨"", fun name _ => ?_⟩
    simp [join, hempty]
  · by_cases hslash : directory.text.toList.getLast? = some '/'
    · refine ⟨directory.text, fun name hname => ?_⟩
      simp [join, isAbsolute_of_noSlash hname, hempty, hslash]
    · refine ⟨directory.text ++ "/", fun name hname => ?_⟩
      simp [join, isAbsolute_of_noSlash hname, hempty, hslash]

end Path

/-! ## Letter case -/

/-- A rule for writing texts so that letter case makes no difference, such as all in capitals. Small letters,
digits, underscores and hyphens remain apart. -/
structure FoldsCase (fold : Char → List Char) : Prop where
  single : ∀ c, isAgentIdTail c = true → ∃ d, fold c = [d]
  apart : ∀ c d, isAgentIdTail c = true → isAgentIdTail d = true → fold c = fold d → c = d

theorem FoldsCase.eq_of_flatMap_eq {fold : Char → List Char} (h : FoldsCase fold) {s t : List Char}
    (hs : ∀ c ∈ s, isAgentIdTail c = true) (ht : ∀ c ∈ t, isAgentIdTail c = true)
    (heq : s.flatMap fold = t.flatMap fold) : s = t := by
  induction s generalizing t with
  | nil =>
    cases t with
    | nil => rfl
    | cons d t =>
      obtain ⟨d', hd⟩ := h.single d (ht d List.mem_cons_self)
      rw [List.flatMap_cons, hd] at heq
      cases heq
  | cons c s ih =>
    obtain ⟨c', hc⟩ := h.single c (hs c List.mem_cons_self)
    cases t with
    | nil =>
      rw [List.flatMap_cons, hc] at heq
      cases heq
    | cons d t =>
      obtain ⟨d', hd⟩ := h.single d (ht d List.mem_cons_self)
      rw [List.flatMap_cons, List.flatMap_cons, hc, hd] at heq
      obtain ⟨hfirst, hrest⟩ := List.cons.inj heq
      have hcd : c = d := h.apart c d (hs c List.mem_cons_self) (ht d List.mem_cons_self) (by rw [hc, hd, hfirst])
      rw [hcd, ih (fun e he => hs e (List.mem_cons_of_mem _ he))
        (fun e he => ht e (List.mem_cons_of_mem _ he)) hrest]

/-- The characters of ids. -/
def idCharacters : List Char := "abcdefghijklmnopqrstuvwxyz0123456789_-".toList

theorem mem_idCharacters {c : Char} (h : isAgentIdTail c = true) : c ∈ idCharacters := by
  have hall : ∀ n < 128, isAgentIdTail (Char.ofNat n) = true → Char.ofNat n ∈ idCharacters := by decide
  have hsmall : c.toNat < 128 := by
    simp only [isAgentIdTail, Bool.or_eq_true, beq_iff_eq] at h
    rcases h with ((hlower | hdigit) | rfl) | rfl
    · have hle : c.val ≤ 'z'.val := of_decide_eq_true (Bool.and_eq_true_iff.mp hlower).2
      exact Nat.lt_of_le_of_lt hle (by decide)
    · have hle : c.val ≤ '9'.val := of_decide_eq_true (Bool.and_eq_true_iff.mp hdigit).2
      exact Nat.lt_of_le_of_lt hle (by decide)
    · decide
    · decide
  have hmem := hall c.toNat hsmall
  rw [Char.ofNat_toNat] at hmem
  exact hmem h

theorem foldsCase_toUpper : FoldsCase fun c => [c.toUpper] := by
  -- ids have no capitals, so a character is known by its capital
  have hall : (idCharacters.all fun c => c.toUpper.toLower == c) = true := by decide
  have hback {c : Char} (h : isAgentIdTail c = true) : c.toUpper.toLower = c :=
    beq_iff_eq.mp (List.all_eq_true.mp hall c (mem_idCharacters h))
  constructor
  · exact fun c _ => ⟨c.toUpper, rfl⟩
  · intro c d hc hd hsame
    have hupper : c.toUpper = d.toUpper := List.singleton_inj.mp hsame
    rw [← hback hc, hupper, hback hd]

/-- Different files, also where letter case is ignored. -/
structure Path.Apart (p q : Path) : Prop where
  components : p.components ≠ q.components
  folded : ∀ fold, FoldsCase fold → p.text.toList.flatMap fold ≠ q.text.toList.flatMap fold

/-! ## Ids -/

namespace Manifest

variable {id : String}

theorem isAgentIdTail_of_valid (h : validAgentId id = true) {c : Char} (hc : c ∈ id.toList) :
    isAgentIdTail c = true := by
  unfold validAgentId at h
  split at h
  · cases h
  · rename_i first rest hid
    rw [hid] at hc
    rw [Bool.and_eq_true, List.all_eq_true] at h
    rcases List.mem_cons.mp hc with rfl | hc
    · rw [isAgentIdTail, h.1, Bool.true_or, Bool.true_or]
    · exact h.2 c hc

theorem ne_empty_of_valid (h : validAgentId id = true) : id ≠ "" := by
  rintro rfl
  exact absurd h (by decide)

end Manifest

namespace Package

/-- A package that the agent is compiled to, from whatever cards. -/
def IsOf (p : Package) (agent : Agent) : Prop :=
  ∃ cards corpus stamp attribution, compile agent cards corpus stamp attribution = .ok p

theorem IsOf.id_eq {p : Package} {agent : Agent} (h : p.IsOf agent) : p.id = agent.id := by
  obtain ⟨cards, corpus, stamp, attribution, hcompile⟩ := h
  obtain ⟨-, -, -, hp⟩ := compile_ok hcompile
  rw [hp]
  rfl

variable {p q : Package} {output : Path}

theorem visible_fileName (h : validAgentId p.id = true) : p.fileName.toList.head? ≠ some '.' := by
  have hlist : p.fileName.toList = p.id.toList ++ ".json".toList := String.toList_append
  obtain ⟨c, rest, hid⟩ := List.exists_cons_of_ne_nil
    fun hnil => Manifest.ne_empty_of_valid h (String.toList_eq_nil_iff.mp hnil)
  have hc := Manifest.isAgentIdTail_of_valid h (hid ▸ List.mem_cons_self : c ∈ p.id.toList)
  rw [hlist, hid, List.cons_append, List.head?_cons]
  rintro ⟨⟩
  exact absurd hc (by decide)

theorem apart_published (hp : validAgentId p.id = true) (hq : validAgentId q.id = true)
    (hne : p.id ≠ q.id) : (published output p).path.Apart (published output q).path := by
  obtain ⟨front, hfront⟩ := Path.text_join_eq output
  have htext {r : Package} (hr : validAgentId r.id = true) :
      (published output r).path.text.toList = front.toList ++ (r.id.toList ++ ".json".toList) := by
    have hjoin : (published output r).path.text = front ++ r.fileName :=
      hfront r.fileName (Publication.isComponent_fileName hr).noSlash
    rw [hjoin, fileName, String.toList_append, String.toList_append]
  have hfolded : ∀ fold, FoldsCase fold → (published output p).path.text.toList.flatMap fold ≠
      (published output q).path.text.toList.flatMap fold := by
    intro fold hfold heq
    rw [htext hp, htext hq, List.flatMap_append, List.flatMap_append, List.flatMap_append,
      List.flatMap_append] at heq
    have hids := List.append_cancel_right (List.append_cancel_left heq)
    exact hne (String.toList_inj.mp (hfold.eq_of_flatMap_eq (fun c => Manifest.isAgentIdTail_of_valid hp)
      (fun c => Manifest.isAgentIdTail_of_valid hq) hids))
  refine ⟨?_, hfolded⟩
  intro heq
  have hnames := (Path.components_join (Publication.isComponent_fileName hp) output).symm.trans
    (heq.trans (Path.components_join (Publication.isComponent_fileName hq) output))
  have hname : p.fileName = q.fileName :=
    Path.Component.name.inj (List.singleton_inj.mp (List.append_cancel_left hnames))
  rw [fileName, fileName, ← String.toList_inj, String.toList_append, String.toList_append] at hname
  exact hne (String.toList_inj.mp (List.append_cancel_right hname))

/-- The package of an agent of an accepted manifest is published in the output directory itself, as a JSON
file that is not hidden and is named for the agent; no two agents are published to one path. -/
theorem published_paths {path : Path} {text : String} {manifest : Manifest}
    (h : Manifest.parse path text = .ok manifest) (output : Path) :
    (∀ agent ∈ manifest.agents, agent.id ≠ "" ∧ agent.id ≠ wrapperKey ∧ ∀ p : Package, p.IsOf agent →
        (published output p).path.IsIn output (agent.id ++ ".json") ∧
          (published output p).path.extension? = some "json" ∧
          (agent.id ++ ".json").toList.head? ≠ some '.') ∧
      manifest.agents.Pairwise fun a b => ∀ p q : Package, p.IsOf a → q.IsOf b →
        (published output p).path.Apart (published output q).path := by
  have haccepted := Manifest.accepted_of_parse h
  have hvalid {agent : Agent} (hagent : agent ∈ manifest.agents) {p : Package} (hp : p.IsOf agent) :
      validAgentId p.id = true := by
    rw [hp.id_eq]
    exact haccepted.validId hagent
  constructor
  · intro agent hagent
    refine ⟨Manifest.ne_empty_of_valid (haccepted.validId hagent), haccepted.notReserved hagent, ?_⟩
    intro p hp
    have hname : p.fileName = agent.id ++ ".json" := by rw [fileName, hp.id_eq]
    have hcomponent := Publication.isComponent_fileName (hvalid hagent hp)
    rw [← hname]
    refine ⟨Path.isIn_join hcomponent output, ?_, visible_fileName (hvalid hagent hp)⟩
    exact (Path.extension?_join hcomponent output).trans
      (Publication.extension?_fileName (hvalid hagent hp))
  · refine (List.pairwise_map.mp haccepted.isKeyed.nodup_ids).imp_of_mem ?_
    intro a b ha hb hne p q hp hq
    refine apart_published (hvalid ha hp) (hvalid hb hq) ?_
    rwa [hp.id_eq, hq.id_eq]

/-- Every agent has a package, compiled from one card. -/
theorem exists_isOf (agent : Agent) : ∃ p : Package, p.IsOf agent := by
  have hknown : ∀ loaded ∈ [(default : LoadedCard)],
      Corpus.find? ⟨[((default : LoadedCard).id, default)]⟩ loaded.id = some loaded := by decide
  exact ⟨_, _, _, ⟨0, ""⟩, "", compile_of_rising (List.cons_ne_nil _ _) (List.pairwise_singleton _ _)
    hknown agent ⟨0, ""⟩ ""⟩

/-- Two agents whose ids differ in a sign. -/
def twins : String :=
  "a-b:\n  name: A\n  rule_selector:\n    scopes: [c]\n  policy:\n    targets: [\"*\"]\n" ++
  "a_b:\n  name: B\n  rule_selector:\n    scopes: [d]\n  policy:\n    targets: [\"*\"]\n"

theorem published_paths_twins :
    ∃ manifest a b, Manifest.parse ⟨"agents.yaml"⟩ twins = .ok manifest ∧ manifest.agents = [a, b] ∧
      ∃ p q : Package, p.IsOf a ∧ q.IsOf b ∧
        (published ⟨"Out/"⟩ p).path = ⟨"Out/a-b.json"⟩ ∧ (published ⟨"Out/"⟩ q).path = ⟨"Out/a_b.json"⟩ ∧
        (published ⟨"Out/"⟩ p).path.IsIn ⟨"Out/"⟩ "a-b.json" ∧
        (published ⟨"Out/"⟩ p).path.text.toList.flatMap (fun c => [c.toUpper]) ≠
          (published ⟨"Out/"⟩ q).path.text.toList.flatMap (fun c => [c.toUpper]) := by
  have hids : (Manifest.parse ⟨"agents.yaml"⟩ twins).toOption.map (·.agents.map (·.id)) =
      some ["a-b", "a_b"] := by decide +kernel
  obtain ⟨manifest, hmanifest, hids⟩ := Option.map_eq_some_iff.mp hids
  obtain ⟨a, others, hagents, ha, hothers⟩ := List.map_eq_cons_iff.mp hids
  obtain ⟨b, rfl, hb⟩ := List.map_eq_singleton_iff.mp hothers
  have hparse := Except.toOption_eq_some_iff.mp hmanifest
  obtain ⟨hplaces, hapart⟩ := published_paths hparse ⟨"Out/"⟩
  rw [hagents] at hplaces hapart
  obtain ⟨p, hp⟩ := exists_isOf a
  obtain ⟨q, hq⟩ := exists_isOf b
  have hplace := ((hplaces a List.mem_cons_self).2.2 p hp).1
  have htwo := (List.pairwise_cons.mp hapart).1 b List.mem_cons_self p q hp hq
  have hfirst : (⟨"Out/"⟩ : Path).join ⟨"a-b" ++ ".json"⟩ = ⟨"Out/a-b.json"⟩ := by decide
  have hsecond : (⟨"Out/"⟩ : Path).join ⟨"a_b" ++ ".json"⟩ = ⟨"Out/a_b.json"⟩ := by decide
  refine ⟨manifest, a, b, hparse, hagents, p, q, hp, hq, ?_, ?_, ?_, htwo.folded _ foldsCase_toUpper⟩
  · rw [published, fileName, hp.id_eq, ha]
    exact hfirst
  · rw [published, fileName, hq.id_eq, hb]
    exact hsecond
  · rwa [ha] at hplace

end Package

end Rulebook
