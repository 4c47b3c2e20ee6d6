import Rulebook.Proofs.Package.Rebuild
import Rulebook.Proofs.Resolution.Cover

/-!
# The order of the cards does not matter

Compiling sorts the cards by id only, so cards of one id stay as they came. All the same the outcome can be
told from the cards without their order: which error it is, which rule the error names, and which package is
made if there is no error.
-/

namespace Rulebook

set_option autoImplicit false

/-- In a list by rising key, the first item that passes is the one with the least key. -/
theorem find?_eq_some_iff_of_rising {α : Type} {p : α → Bool} {key : α → String} {xs : List α} {x : α}
    (h : (xs.map key).Pairwise (· < ·)) :
    xs.find? p = some x ↔ x ∈ xs ∧ p x = true ∧ ∀ y ∈ xs, key y < key x → p y = false := by
  induction xs with
  | nil => simp
  | cons first rest ih =>
    rw [List.map_cons, List.pairwise_cons] at h
    obtain ⟨hfirst, hrest⟩ := h
    have hleast {y : α} (hy : y ∈ rest) : key first < key y := hfirst _ (List.mem_map_of_mem hy)
    cases hp : p first with
    | true =>
      rw [List.find?_cons_of_pos hp, Option.some.injEq]
      constructor
      · rintro rfl
        refine ⟨List.mem_cons_self, hp, fun y hy hlt => ?_⟩
        rcases List.mem_cons.mp hy with rfl | hy
        · exact absurd hlt (String.lt_irrefl _)
        · exact absurd hlt (string_lt_asymm _ _ (hleast hy))
      · rintro ⟨hx, -, hbefore⟩
        rcases List.mem_cons.mp hx with rfl | hx
        · rfl
        · rw [hbefore first List.mem_cons_self (hleast hx)] at hp
          cases hp
    | false =>
      rw [List.find?_cons_of_neg (by simp [hp]), ih hrest]
      constructor
      · rintro ⟨hx, hpx, hbefore⟩
        exact ⟨List.mem_cons_of_mem _ hx, hpx, List.forall_mem_cons.mpr ⟨fun _ => hp, hbefore⟩⟩
      · rintro ⟨hx, hpx, hbefore⟩
        refine ⟨?_, hpx, (List.forall_mem_cons.mp hbefore).2⟩
        rcases List.mem_cons.mp hx with rfl | hx
        · rw [hpx] at hp
          cases hp
        · exact hx

namespace Package

variable {agent : Agent} {cards cards' : List LoadedCard} {corpus : Corpus} {stamp : Stamp}
  {attribution : String} {e : CompileError} {p : Package} {rule : String}

/-! ## Repeated ids -/

/-- The least id that comes more than once. -/
structure FirstRepeated (ids : List String) (rule : String) : Prop where
  repeated : 1 < ids.count rule
  least : ∀ other, other < rule → ids.count other ≤ 1

theorem FirstRepeated.perm {ids ids' : List String} (hperm : ids.Perm ids') (h : FirstRepeated ids rule) :
    FirstRepeated ids' rule :=
  ⟨hperm.count_eq rule ▸ h.repeated, fun other hlt => hperm.count_eq other ▸ h.least other hlt⟩

theorem FirstRepeated.unique {ids : List String} {other : String} (h : FirstRepeated ids rule)
    (hother : FirstRepeated ids other) : rule = other := by
  have hge : ¬ rule < other := fun hlt => Nat.not_le.mpr h.repeated (hother.least rule hlt)
  have hle : ¬ other < rule := fun hlt => Nat.not_le.mpr hother.repeated (h.least other hlt)
  exact Std.le_antisymm (Std.not_lt.mp hle) (Std.not_lt.mp hge)

/-- The first of some ids in order is the least repeated one if it comes again; else it plays no part. -/
theorem firstRepeated_cons_iff {ids : List String} {first : String} (h : ∀ id ∈ ids, ¬ id < first) :
    FirstRepeated (first :: ids) rule ↔
      if first ∈ ids then rule = first else FirstRepeated ids rule := by
  by_cases hfirst : first ∈ ids
  · rw [if_pos hfirst]
    have hleast : FirstRepeated (first :: ids) first := by
      refine ⟨?_, fun other hlt => ?_⟩
      · rw [List.count_cons_self]
        exact Nat.succ_lt_succ (List.count_pos_iff.mpr hfirst)
      · have hnew : other ∉ first :: ids := by
          rintro (_ | ⟨_, hmem⟩)
          · exact String.lt_irrefl _ hlt
          · exact h other hmem hlt
        rw [List.count_eq_zero_of_not_mem hnew]
        exact Nat.zero_le _
    constructor
    · intro hrule
      exact hrule.unique hleast
    · rintro rfl
      exact hleast
  · rw [if_neg hfirst]
    have hcount (other : String) : 1 < (first :: ids).count other ↔ 1 < ids.count other := by
      rw [List.count_cons]
      split
      · rename_i heq
        rw [← eq_of_beq heq, List.count_eq_zero_of_not_mem hfirst]
        simp
      · rw [Nat.add_zero]
    have hleast (other : String) : (first :: ids).count other ≤ 1 ↔ ids.count other ≤ 1 := by
      rw [← Nat.not_lt, hcount, Nat.not_lt]
    constructor
    · intro h
      exact ⟨(hcount rule).mp h.repeated, fun other hlt => (hleast other).mp (h.least other hlt)⟩
    · intro h
      exact ⟨(hcount rule).mpr h.repeated, fun other hlt => (hleast other).mpr (h.least other hlt)⟩

/-- Neighbours tell which id is repeated first, once the cards are in order. -/
theorem firstRepeated_eq_some_iff (hsorted : cards.Pairwise fun a b => ¬ b.id < a.id) :
    firstRepeated cards = some rule ↔ FirstRepeated (cards.map (·.id)) rule := by
  induction cards with
  | nil => exact iff_of_false nofun fun h => absurd h.repeated (by simp)
  | cons first rest ih =>
    obtain ⟨hfirst, hrest⟩ := List.pairwise_cons.mp hsorted
    rw [List.map_cons, firstRepeated_cons_iff (List.forall_mem_map.mpr hfirst), ← ih hrest]
    cases rest with
    | nil => simp [firstRepeated]
    | cons second others =>
      rw [firstRepeated]
      by_cases heq : first.id = second.id
      · simp [heq, eq_comm]
      · -- all others come behind the second, so none has the id of the first
        have hnew : first.id ∉ (second :: others).map (·.id) := by
          intro hmem
          obtain ⟨other, hother, hid⟩ := List.mem_map.mp hmem
          rcases List.mem_cons.mp hother with rfl | hother
          · exact heq hid.symm
          · have hle := (List.pairwise_cons.mp hrest).1 other hother
            rw [hid] at hle
            exact heq (Std.le_antisymm (Std.not_lt.mp (hfirst second List.mem_cons_self))
              (Std.not_lt.mp hle))
        rw [if_neg heq, if_neg hnew]

theorem perm_inOrder (cards : List LoadedCard) : (inOrder cards).Perm cards :=
  List.mergeSort_perm cards _

theorem firstRepeated_inOrder_iff :
    firstRepeated (inOrder cards) = some rule ↔ FirstRepeated (cards.map (·.id)) rule := by
  have hids := (perm_inOrder cards).map (·.id)
  rw [firstRepeated_eq_some_iff (sorted_inOrder cards)]
  exact ⟨fun h => h.perm hids, fun h => h.perm hids.symm⟩

/-! ## The outcome, told without the order -/

theorem firstRepeated_inOrder_of_perm (hperm : cards.Perm cards') :
    firstRepeated (inOrder cards) = firstRepeated (inOrder cards') := by
  ext rule
  rw [firstRepeated_inOrder_iff, firstRepeated_inOrder_iff]
  have hids := hperm.map (·.id)
  exact ⟨fun h => h.perm hids, fun h => h.perm hids.symm⟩

/-- Cards of distinct ids can be put in order in one way only. -/
theorem inOrder_of_perm (hperm : cards.Perm cards') (h : firstRepeated (inOrder cards) = none) :
    inOrder cards = inOrder cards' := by
  have hrising := rising_of_firstRepeated (sorted_inOrder cards) h
  rw [firstRepeated_inOrder_of_perm hperm] at h
  have hrising' := rising_of_firstRepeated (sorted_inOrder cards') h
  refine eq_of_mem_iff (fun a b => string_lt_asymm a.id b.id) (List.pairwise_map.mp hrising)
    (List.pairwise_map.mp hrising') fun loaded => ?_
  rw [(perm_inOrder cards).mem_iff, (perm_inOrder cards').mem_iff, hperm.mem_iff]

/-- Why cards cannot be compiled: there are none; or an id comes more than once, of which the least is
named; or else the corpus has not got all of them as they are, and the first of these by id is named. -/
inductive Refused (agent : Agent) (cards : List LoadedCard) (corpus : Corpus) : CompileError → Prop
  | empty : cards = [] → Refused agent cards corpus (.emptyPackage agent.id)
  | repeated {rule : String} : FirstRepeated (cards.map (·.id)) rule →
    Refused agent cards corpus (.duplicateRule agent.id rule)
  | unknown {loaded : LoadedCard} : (cards.map (·.id)).Nodup → loaded ∈ cards →
    isKnown corpus loaded = false →
    (∀ other ∈ cards, other.id < loaded.id → isKnown corpus other = true) →
    Refused agent cards corpus (.missingRule agent.id loaded.id)

theorem refused_of_compile (h : compile agent cards corpus stamp attribution = .error e) :
    Refused agent cards corpus e := by
  rw [compile] at h
  split at h
  · rename_i hnil
    cases h
    exact .empty (List.isEmpty_iff.mp hnil)
  · dsimp only at h
    split at h
    · rename_i rule hrule
      cases h
      exact .repeated (firstRepeated_inOrder_iff.mp hrule)
    · rename_i hnone
      have hrising := rising_of_firstRepeated (sorted_inOrder cards) hnone
      split at h
      · rename_i loaded hfind
        cases h
        obtain ⟨hloaded, hunknown, hbefore⟩ := (find?_eq_some_iff_of_rising hrising).mp hfind
        have hnodup := ((perm_inOrder cards).map (·.id)).nodup_iff.mp (nodup_of_rising hrising)
        refine .unknown hnodup ((perm_inOrder cards).mem_iff.mp hloaded) (by simpa using hunknown) ?_
        intro other hother hlt
        simpa using hbefore other ((perm_inOrder cards).mem_iff.mpr hother) hlt
      · cases h

/-- The same cards in another order, with whatever ids and contents, give the same package or the same
error; which error it is can be told without the order. -/
theorem compile_of_perm (hperm : cards.Perm cards') (agent : Agent) (corpus : Corpus) (stamp : Stamp)
    (attribution : String) :
    compile agent cards corpus stamp attribution = compile agent cards' corpus stamp attribution ∧
      (∀ e, compile agent cards corpus stamp attribution = .error e → Refused agent cards corpus e) ∧
      ∀ p, compile agent cards corpus stamp attribution = .ok p →
        p.rules.Pairwise (· < ·) ∧ p.rules = p.rulesDetail.map (·.id) := by
  refine ⟨?_, fun _ => refused_of_compile, fun p hp => ?_⟩
  · have hempty : cards.isEmpty = cards'.isEmpty := by
      rw [Bool.eq_iff_iff, List.isEmpty_iff, List.isEmpty_iff]
      exact ⟨fun hnil => (hnil ▸ hperm).nil_eq.symm, fun hnil => (hnil ▸ hperm).eq_nil⟩
    rw [compile, compile, hempty]
    dsimp only
    rw [← firstRepeated_inOrder_of_perm hperm]
    cases hrepeated : firstRepeated (inOrder cards) with
    | some rule => rfl
    | none => rw [inOrder_of_perm hperm hrepeated]
  · obtain ⟨-, hrepeated, -, rfl⟩ := compile_ok hp
    refine ⟨rising_of_firstRepeated (sorted_inOrder cards) hrepeated, ?_⟩
    rw [ofCards, List.map_map]
    rfl

/-- Two cards share an id with different contents, and the corpus is empty: whichever comes first, it is the
shared id that is to blame. -/
theorem compile_of_perm_clashing :
    let agent := Resolution.agentFor "web" "web"
    let card := Resolution.cardAt "A-B-002" "web" false
    let rival := Resolution.cardAt "A-B-002" "core" false
    let other := Resolution.cardAt "A-B-001" "web" false
    [card, other, rival].Perm [rival, card, other] ∧
      ∀ stamp attribution,
        compile agent [card, other, rival] .empty stamp attribution =
            .error (.duplicateRule "web" "A-B-002") ∧
          compile agent [rival, card, other] .empty stamp attribution =
            .error (.duplicateRule "web" "A-B-002") := by
  intro agent card rival other
  have hperm : [card, other, rival].Perm [rival, card, other] := by decide
  refine ⟨hperm, fun stamp attribution => ?_⟩
  have hrefused : compile agent [card, other, rival] .empty stamp attribution =
      .error (.duplicateRule "web" "A-B-002") := by
    have hrepeated : firstRepeated (inOrder [card, other, rival]) = some "A-B-002" := by
      refine firstRepeated_inOrder_iff.mpr ⟨by decide, fun id hlt => ?_⟩
      have hne : id ≠ "A-B-002" := fun heq => String.lt_irrefl _ (heq ▸ hlt)
      by_cases hother : id = "A-B-001"
      · rw [hother]
        decide
      · simp [card, other, rival, Resolution.cardAt, LoadedCard.id, Ne.symm hne,
          Ne.symm hother]
    rw [compile]
    dsimp only
    rw [hrepeated]
    rfl
  exact ⟨hrefused, (compile_of_perm hperm agent .empty stamp attribution).1 ▸ hrefused⟩

end Package

end Rulebook
