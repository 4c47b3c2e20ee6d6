import Mathlib.Data.List.Pairwise
import Rulebook.Proofs.Basic
import Rulebook.Yaml.Node.Reader

/-!
# What holds of every value that is read

A value that is read is a leaf, a value under a tag, or a collection of values that are read in less
room, where a mapping takes no key that is the same as one before it. What is closed under these ways
holds of everything that the reader returns.
-/

namespace Rulebook.Yaml

set_option autoImplicit false

namespace Node

/-- A value without parts. -/
def isLeaf : Node → Bool
  | .sequence _ | .mapping _ | .tagged .. => false
  | _ => true

/-! ## Scalars -/

theorem isLeaf_integerReading {cs : List Char} {n : Node}
    (h : integerReading cs = some (some n)) : n.isLeaf = true := by
  rw [integerReading] at h
  split at h
  · split at h
    · rename_i hnode
      cases h
      obtain ⟨_, _, rfl⟩ := Option.map_eq_some_iff.mp hnode
      rfl
    · split at h <;> cases h
  · cases h

theorem isLeaf_real? {cs : List Char} {n : Node} (h : real? cs = some n) : n.isLeaf = true := by
  have hfinite (negative : Bool) (cs : List Char)
      (h : ((decimal? cs).bind (·.toDouble? negative)).map (Node.number <| .real ·) = some n) :
      n.isLeaf = true := by
    obtain ⟨_, _, rfl⟩ := Option.map_eq_some_iff.mp h
    rfl
  have hunsigned (cs : List Char)
      (h : (if isInfinityName cs then some (.infinity false)
        else ((decimal? cs).bind (·.toDouble? false)).map (Node.number <| .real ·)) = some n) :
      n.isLeaf = true := by
    split at h
    · cases h
      rfl
    · exact hfinite _ _ h
  unfold real? at h
  dsimp only at h
  split at h
  · cases h
    rfl
  · split at h
    · exact hunsigned _ h
    · split at h
      · cases h
        rfl
      · exact hfinite _ _ h
    · exact hunsigned _ h

theorem isLeaf_plainNode {s : String} {n : Node} (h : plainNode s = some n) : n.isLeaf = true := by
  unfold plainNode at h
  dsimp only at h
  split at h
  · cases h
    rfl
  · split at h
    · cases h
      rfl
    · split at h
      · rename_i reading hreading
        rw [h] at hreading
        exact isLeaf_integerReading hreading
      · split at h
        · cases h
          rfl
        · cases hreal : real? s.toList with
          | none =>
            rw [hreal] at h
            cases h
            rfl
          | some m =>
            rw [hreal] at h
            cases h
            exact isLeaf_real? hreal

theorem isLeaf_coreNode {tag text : String} {n : Node} (h : coreNode tag text = some n) :
    n.isLeaf = true := by
  rw [coreNode] at h
  split at h
  · obtain ⟨_, _, rfl⟩ := Option.map_eq_some_iff.mp h
    rfl
  · split at h
    · exact isLeaf_integerReading (Option.join_eq_some_iff.mp h)
    · split at h
      · exact isLeaf_real? h
      · split at h
        · split at h
          · cases h
            rfl
          · cases h
        · cases h
          rfl

theorem isLeaf_scalarNode {tag : Option String} {text : String} {plain tagRead : Bool} {n : Node}
    (h : scalarNode tag text plain tagRead = .ok n) : n.isLeaf = true := by
  have hstring (plain : Bool)
      (h : (if plain then plainNode text else some (.string text)) = some n) : n.isLeaf = true := by
    split at h
    · exact isLeaf_plainNode h
    · cases h
      rfl
  unfold scalarNode at h
  dsimp only at h
  split at h
  · rename_i hnode
    cases h
    split at hnode
    · split at hnode
      · exact hstring plain hnode
      · exact isLeaf_coreNode hnode
    · exact hstring plain hnode
  · cases h

end Node

/-! ## Collections -/

/-- No key is the same as one before it. -/
def KeysDiffer (entries : List (Node × Node)) : Prop :=
  entries.Pairwise fun a b => a.1.same b.1 = false

/-- Closed under the ways in which a value is read where some collections may still be opened. -/
structure IsRead (P : Nat → Node → Prop) : Prop where
  leaf : ∀ {room : Nat} {n : Node}, n.isLeaf = true → P room n
  tagged : ∀ {room : Nat} {tag : String} {content : Node}, P room content →
    P room (.tagged tag content)
  sequence : ∀ {room : Nat} {items : List Node}, (∀ n ∈ items, P room n) →
    P (room + 1) (.sequence items)
  mapping : ∀ {room : Nat} {entries : List (Node × Node)}, KeysDiffer entries →
    (∀ entry ∈ entries, P room entry.1 ∧ P room entry.2) → P (room + 1) (.mapping entries)

variable {P : Nat → Node → Prop}

mutual

theorem readNode_holds (hP : IsRead P) (links : Links) (fuel room : Nat) (place : Place)
    (tagRead : Bool) (p q : Progress) (n : Node)
    (h : readNode links fuel room place tagRead p = .ok (n, q)) : P room n := by
  cases fuel with
  | zero =>
    rw [readNode] at h
    cases h
  | succ fuel =>
    have htagged (tag : String)
        (h : (do
          let (content, p) ← readNode links fuel room place true p
          return (Node.tagged tag content, p)) = .ok (n, q)) : P room n := by
      obtain ⟨⟨content, p'⟩, hcontent, hreturn⟩ := Except.bind_ok h
      cases hreturn
      exact hP.tagged (readNode_holds hP links fuel room place true p q content hcontent)
    rw [readNode] at h
    dsimp only at h
    split at h
    · cases h
    · split at h
      · cases h
      · split at h
        · cases h
        · obtain ⟨⟨m, p'⟩, hm, hreturn⟩ := Except.bind_ok h
          cases hreturn
          exact readNode_holds hP links fuel room place false _ _ _ hm
    · split at h
      · exact htagged _ h
      · obtain ⟨m, hm, hreturn⟩ := Except.bind_ok h
        cases hreturn
        exact hP.leaf (Node.isLeaf_scalarNode hm)
    · split at h
      · exact htagged _ h
      · split at h
        · cases h
        · rename_i hroom
          obtain ⟨⟨items, p'⟩, hitems, hreturn⟩ := Except.bind_ok h
          cases hreturn
          rw [← Nat.sub_add_cancel (Nat.pos_of_ne_zero hroom)]
          exact hP.sequence (readItems_holds hP links fuel (room - 1) place 0 _ _ items hitems)
    · split at h
      · exact htagged _ h
      · split at h
        · cases h
        · rename_i hroom
          obtain ⟨⟨entries, p'⟩, hentries, hreturn⟩ := Except.bind_ok h
          cases hreturn
          rw [← Nat.sub_add_cancel (Nat.pos_of_ne_zero hroom)]
          obtain ⟨hdiffer, hall⟩ := readEntries_holds hP links fuel (room - 1) place tagRead [] _ _
            entries .nil (fun _ hmem => nomatch hmem) hentries
          exact hP.mapping hdiffer hall
    · cases h
termination_by fuel

theorem readItems_holds (hP : IsRead P) (links : Links) (fuel room : Nat) (place : Place)
    (index : Nat) (p q : Progress) (items : List Node)
    (h : readItems links fuel room place index p = .ok (items, q)) : ∀ n ∈ items, P room n := by
  cases fuel with
  | zero =>
    rw [readItems] at h
    cases h
  | succ fuel =>
    rw [readItems] at h
    split at h
    · cases h
      exact fun _ hmem => nomatch hmem
    · obtain ⟨⟨n, p'⟩, hn, hrest⟩ := Except.bind_ok h
      obtain ⟨⟨rest, p''⟩, hrest, hreturn⟩ := Except.bind_ok hrest
      cases hreturn
      exact List.forall_mem_cons.mpr ⟨readNode_holds hP links fuel room _ _ _ _ n hn,
        readItems_holds hP links fuel room _ _ _ _ rest hrest⟩
termination_by fuel

/-- The entries so far are kept in reverse. -/
theorem readEntries_holds (hP : IsRead P) (links : Links) (fuel room : Nat) (place : Place)
    (tagRead : Bool) (seen : List (Node × Node)) (p q : Progress) (entries : List (Node × Node))
    (hdiffer : KeysDiffer seen.reverse) (hseen : ∀ entry ∈ seen, P room entry.1 ∧ P room entry.2)
    (h : readEntries links fuel room place tagRead seen p = .ok (entries, q)) :
    KeysDiffer entries ∧ ∀ entry ∈ entries, P room entry.1 ∧ P room entry.2 := by
  cases fuel with
  | zero =>
    rw [readEntries] at h
    cases h
  | succ fuel =>
    rw [readEntries] at h
    dsimp only at h
    split at h
    · cases h
      exact ⟨hdiffer, fun entry hentry => hseen entry (List.mem_reverse.mp hentry)⟩
    · obtain ⟨⟨key, p'⟩, hkey, hrest⟩ := Except.bind_ok h
      dsimp only at hrest
      split at hrest
      · cases hrest
      · rename_i hnew
        obtain ⟨⟨value, p''⟩, hvalue, hrest⟩ := Except.bind_ok hrest
        refine readEntries_holds hP links fuel room place tagRead _ _ _ entries ?_ ?_ hrest
        · -- the new key is last in reading order, and the search found none like it
          rw [KeysDiffer, List.reverse_cons, List.pairwise_append]
          refine ⟨hdiffer, List.pairwise_singleton _ _, fun entry hentry other hother => ?_⟩
          rw [List.mem_singleton.mp hother]
          exact Bool.eq_false_iff.mpr
            (List.find?_eq_none.mp hnew entry (List.mem_reverse.mp hentry))
        · exact List.forall_mem_cons.mpr ⟨⟨readNode_holds hP links fuel room _ _ _ _ key hkey,
            readNode_holds hP links fuel room _ _ _ _ value hvalue⟩, hseen⟩
termination_by fuel

end

theorem Document.node_holds (hP : IsRead P) {d : Document} {n : Node} (h : d.node = .ok n) :
    P mostCollections n := by
  rw [Document.node] at h
  dsimp only at h
  split at h
  · cases hwhole : (Links.ofDocument d).whole <;> cases hcontinued : d.continued <;>
      simp [hwhole, hcontinued, bind, Except.bind, pure, Except.pure, throw, throwThe,
        MonadExceptOf.throw] at h
    rw [← h]
    exact hP.leaf rfl
  · obtain ⟨⟨node, q⟩, hread, h⟩ := Except.bind_ok h
    cases hwhole : (Links.ofDocument d).whole <;> cases hcontinued : d.continued <;>
      simp [hwhole, hcontinued, bind, Except.bind, pure, Except.pure, throw, throwThe,
        MonadExceptOf.throw] at h
    rw [← h]
    exact readNode_holds hP _ _ _ _ _ _ _ _ hread

theorem Node.parse_holds (hP : IsRead P) {text : String} {n : Node} (h : Node.parse text = .ok n) :
    P mostCollections n := by
  rw [parse] at h
  dsimp only at h
  split at h
  · cases h
  · exact Document.node_holds hP h

end Rulebook.Yaml
