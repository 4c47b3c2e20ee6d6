import Mathlib.Data.List.TakeWhile
import Rulebook.Proofs.Disk.Route

/-!
# What the operations change

Writing, removing and moving a file and making a directory each change the view at the locations they
name and nowhere else.
-/

namespace Rulebook.Disk

set_option autoImplicit false

variable {d d' : Disk}

/-- The view changes at one location. -/
structure Sets (d d' : Disk) (l : Location) (k : Option Kind) : Prop where
  here : d'.here = d.here
  view : ∀ m, d'.kind? m = if m = l then k else d.kind? m
  wellFormed : d.WellFormed → d'.WellFormed

theorem Sets.directory {l m : Location} {k : Option Kind} (h : d.Sets d' l k)
    (hl : d.kind? l ≠ some .directory) (hm : d.kind? m = some .directory) :
    d'.kind? m = some .directory := by
  rw [h.view, if_neg, hm]
  rintro rfl
  exact hl hm

theorem sets_put {new : Entry} (hleaf : new.IsLeaf) (hnew : new.WellFormed) {l : Location}
    {name : String} (hname : IsName name) (hl : d.kind? l = some .directory)
    (hfree : d.kind? (l ++ [name]) ≠ some .directory) :
    d.Sets (d.put (l ++ [name]) new) (l ++ [name]) (some new.kind) :=
  ⟨rfl, kind?_put hleaf hl hfree, fun h => wellFormed_put h hnew l hname⟩

theorem sets_remove (hd : d.WellFormed) {l : Location} (hl : l ≠ []) {content : ByteArray}
    (hfile : d.kind? l = some (.file content)) : d.Sets (d.remove l) l none := by
  refine ⟨rfl, fun m => ?_, fun h => wellFormed_remove h l⟩
  rw [kind?_remove hd hl]
  by_cases hm : m = l
  · subst hm
    rw [if_pos (List.prefix_refl m), if_pos rfl]
  · rw [if_neg hm]
    split
    · rename_i hprefix
      obtain ⟨below, rfl⟩ := hprefix
      -- nothing is below a file
      cases hthere : d.kind? (l ++ below) with
      | none => rfl
      | some k =>
        have hdirectory := kind?_above below (fun h => hm (by rw [h, List.append_nil]))
          (by rw [hthere]; rfl)
        rw [hfile] at hdirectory
        cases hdirectory
    · rfl

/-! ## Directories -/

theorem mem_of_dropWhile_reverse {α : Type} {p : α → Bool} (all : List α) :
    ∃ noise, (∀ x ∈ noise, p x = true) ∧ all = (all.reverse.dropWhile p).reverse ++ noise := by
  refine ⟨(all.reverse.takeWhile p).reverse, fun x hx => ?_, ?_⟩
  · exact List.mem_takeWhile_imp (List.mem_reverse.mp hx)
  · rw [← List.reverse_append, List.takeWhile_append_dropWhile, List.reverse_reverse]

theorem not_of_dropWhile_reverse {α : Type} {p : α → Bool} {all front : List α} {last : α}
    (h : (all.reverse.dropWhile p).reverse = front ++ [last]) : p last = false := by
  have hhead : (all.reverse.dropWhile p).head? = some last := by
    rw [← List.getLast?_reverse, h, List.getLast?_concat]
  have hnot := List.head?_dropWhile_not p all.reverse
  rw [hhead] at hnot
  exact hnot

/-- What a target says about its path: directories lead up to a name, and only slashes follow. -/
structure Aims (d : Disk) (p : Path) (t : Target) : Prop where
  check : checkText p = .ok ()
  split : ∃ front slashes, pieces p = front ++ t.name :: slashes ∧ (∀ s ∈ slashes, s = "") ∧
    front.foldlM d.follow (d.start p) = .ok t.parent
  parent : d.kind? t.parent = some .directory
  name : IsComponent t.name
  noNul : '\x00' ∉ t.name.toList

theorem aims_of_target {p : Path} {t : Target} (h : d.target p = .ok (some t)) :
    d.Aims p t := by
  rw [target] at h
  cases hcheck : checkText p with
  | error e => rw [hcheck] at h; cases h
  | ok =>
    rw [hcheck] at h
    simp only [bind, Except.bind] at h
    obtain ⟨slashes, hslashes, hpieces⟩ :=
      mem_of_dropWhile_reverse (p := fun piece : String => piece.isEmpty) (pieces p)
    generalize hkept : ((pieces p).reverse.dropWhile (·.isEmpty)).reverse = kept at h hpieces
    cases hfollow : kept.dropLast.foldlM d.follow (d.start p) with
    | error e => rw [hfollow] at h; cases h
    | ok l =>
      rw [hfollow] at h
      simp only at h
      cases hdirectory : d.checkDirectory l with
      | error e => rw [hdirectory] at h; cases h
      | ok =>
        rw [hdirectory] at h
        simp only at h
        split at h
        · cases h
        · cases h
        · cases h
        · rename_i name hhere hup hlast
          cases h
          obtain ⟨front, rfl⟩ := List.getLast?_eq_some_iff.mp hlast
          rw [List.dropLast_concat] at hfollow
          rw [List.append_assoc, List.singleton_append] at hpieces
          have hmem : name ∈ pieces p := by
            rw [hpieces]
            exact List.mem_append_right _ List.mem_cons_self
          have hnonempty : name ≠ "" := by
            rintro rfl
            cases not_of_dropWhile_reverse hkept
          refine ⟨hcheck, ⟨front, slashes, hpieces, fun s hs => ?_, hfollow⟩,
            (checkDirectory_ok_iff l).mp hdirectory,
            ⟨hnonempty, hhere, hup, Path.noSlash_of_mem_pieces hmem⟩, fun hnul => ?_⟩
          · exact String.isEmpty_iff.mp (hslashes s hs)
          · exact ((checkText_ok_iff p).mp hcheck).1 (Path.mem_text_of_mem_pieces hmem hnul)

theorem makeDirectory_ok {p : Path} (h : d.makeDirectory p = .ok d') :
    ∃ t, d.Aims p t ∧ IsName t.name ∧ d.kind? t.location = none ∧
      d.Sets d' t.location (some .directory) := by
  rw [makeDirectory] at h
  cases htarget : d.target p with
  | error e => rw [htarget] at h; cases h
  | ok found =>
    rw [htarget] at h
    cases found with
    | none => cases h
    | some t =>
      simp only [bind, Except.bind] at h
      have haims := aims_of_target htarget
      split at h
      · cases h
      · rename_i hshort
        rw [Bool.not_eq_true] at hshort
        split at h
        · cases h
        · rename_i hfree
          cases h
          have hname : IsName t.name := ⟨haims.name, haims.noNul, hshort⟩
          rw [← kind?_isSome, Bool.not_eq_true, Option.isSome_eq_false_iff,
            Option.isNone_iff_eq_none] at hfree
          have hwellFormed : (Entry.directory []).WellFormed := by decide
          refine ⟨t, haims, hname, hfree, ?_⟩
          exact sets_put Entry.isLeaf_directory hwellFormed hname haims.parent
            (by rw [← Target.location, hfree]; rintro ⟨⟩)

theorem foldlM_follow_slashes {slashes : List String} (h : ∀ s ∈ slashes, s = "") {l : Location}
    (hl : d.kind? l = some .directory) : slashes.foldlM d.follow l = .ok l := by
  induction slashes with
  | nil => rfl
  | cons s rest ih =>
    have hs : s = "" := h s List.mem_cons_self
    subst hs
    refine (foldlM_follow_cons_iff "" rest l l).mpr ⟨?_, ih fun s hs => h s (List.mem_cons_of_mem _ hs)⟩
    exact (follow_ok_iff l l "").mpr ⟨hl, rfl, by decide, by rw [hl]; rfl⟩

theorem makeDirectory_leads {p : Path} (h : d.makeDirectory p = .ok d') : ∃ l, d'.Leads p l := by
  obtain ⟨t, haims, hname, hfree, hsets⟩ := makeDirectory_ok h
  obtain ⟨front, slashes, hpieces, hslashes, hfollow⟩ := haims.split
  have hthere : d'.kind? t.location = some .directory := by rw [hsets.view, if_pos rfl]
  have hkeep : ∀ m, d.kind? m = some .directory → d'.kind? m = some .directory := by
    intro m hm
    rw [hsets.view]
    split
    · rfl
    · exact hm
  have hparent := hkeep _ haims.parent
  have hstart : d'.start p = d.start p := by rw [start, start, hsets.here]
  have hadvance : t.parent.advance t.name = t.location :=
    Location.advance_of_name _ haims.name.nonempty haims.name.notHere haims.name.notUp
  refine ⟨t.location, (locate_ok_iff p _).mpr ⟨haims.check, ?_⟩, hthere⟩
  rw [hpieces, foldlM_follow_append, hstart,
    foldlM_follow_mono hfollow (fun m _ => hkeep m) fun _ => by rw [hparent]; rfl]
  refine (foldlM_follow_cons_iff _ _ _ _).mpr ⟨?_, ?_⟩
  · exact (follow_ok_iff _ _ _).mpr
      ⟨hparent, rfl, hname.short, by rw [hadvance, hthere]; rfl⟩
  · rw [hadvance]
    exact foldlM_follow_slashes hslashes hthere

theorem removeDirectory_ok_iff (p : Path) :
    d.removeDirectory p = .ok d' ↔ ∃ l, d.Leads p l ∧ d' = d.remove l := by
  rw [removeDirectory]
  cases hlocate : d.locate p with
  | error e =>
    simp only [bind, Except.bind, reduceCtorEq, false_iff]
    rintro ⟨l, hleads, _⟩
    rw [hleads.located] at hlocate
    cases hlocate
  | ok l =>
    simp only [bind, Except.bind]
    have hl (m : Location) (hleads : d.Leads p m) : m = l := by
      rw [hleads.located, Except.ok.injEq] at hlocate
      exact hlocate
    cases hcheck : d.checkDirectory l with
    | error e =>
      simp only [reduceCtorEq, false_iff]
      rintro ⟨m, hleads, _⟩
      rw [← hl m hleads, (checkDirectory_ok_iff m).mpr hleads.directory] at hcheck
      cases hcheck
    | ok =>
      simp only [pure, Except.pure, Except.ok.injEq]
      constructor
      · rintro rfl
        exact ⟨l, ⟨hlocate, (checkDirectory_ok_iff l).mp hcheck⟩, rfl⟩
      · rintro ⟨m, hleads, rfl⟩
        rw [hl m hleads]

/-! ## Files in a directory -/

section Join

variable {a b : Path} {A B : Location} {name : String}

theorem write_join_ok (ha : d.Leads a A) (hname : IsComponent name) {content : ByteArray}
    (h : d.write (a.join ⟨name⟩) content = .ok d') :
    IsName name ∧ a.Fits name ∧ d.kind? (A ++ [name]) ≠ some .directory ∧
      d.Sets d' (A ++ [name]) (some (.file content)) := by
  rw [write] at h
  cases htarget : d.target (a.join ⟨name⟩) with
  | error e => rw [htarget] at h; cases h
  | ok found =>
    obtain ⟨hnul, hfits, rfl⟩ := of_target_join ha hname htarget
    rw [htarget] at h
    simp only [bind, Except.bind, Bool.false_eq_true, if_false] at h
    split at h
    · cases h
    · rename_i hshort
      rw [Bool.not_eq_true] at hshort
      have hisName : IsName name := ⟨hname, hnul, hshort⟩
      simp only [pure, Except.pure, Target.location] at h
      split at h
      · cases h
      · rename_i hnot
        cases h
        have hfree : d.kind? (A ++ [name]) ≠ some .directory :=
          (kind?_ne_directory_iff _).mpr hnot
        exact ⟨hisName, hfits, hfree, sets_put (Entry.isLeaf_file content) (by trivial) hisName
          ha.directory hfree⟩

theorem write_join (ha : d.Leads a A) (hname : IsName name) (hfits : a.Fits name)
    (hfree : d.kind? (A ++ [name]) ≠ some .directory) (content : ByteArray) :
    ∃ d', d.write (a.join ⟨name⟩) content = .ok d' := by
  refine ⟨d.put (A ++ [name]) (.file content), ?_⟩
  simp only [write, target_join_of_fits ha hname hfits, bind, Except.bind, hname.short,
    Bool.false_eq_true, if_false]
  split
  · rename_i entries hentry
    exact absurd hentry ((kind?_ne_directory_iff _).mp hfree entries)
  · rfl

theorem removeFile_join (hd : d.WellFormed) (ha : d.Leads a A) (hname : IsName name)
    (hfits : a.Fits name) {content : ByteArray}
    (hfile : d.kind? (A ++ [name]) = some (.file content)) :
    ∃ d', d.removeFile (a.join ⟨name⟩) = .ok d' ∧ d.Sets d' (A ++ [name]) none := by
  have hlocate : d.locate (a.join ⟨name⟩) = .ok (A ++ [name]) :=
    (locate_join_iff hname.toIsComponent ha.nonempty _).mpr
      ⟨A, ha, rfl, hname, hfits, by rw [hfile]; rfl⟩
  refine ⟨d.remove (A ++ [name]), ?_, sets_remove hd (by simp) hfile⟩
  rw [removeFile, hlocate]
  simp only [bind, Except.bind, (kind?_eq_file_iff _ _).mp hfile, pure, Except.pure]

/-- The view changes where a file was and where it is now. -/
structure Moved (d d' : Disk) (A B : Location) (name : String) : Prop where
  here : d'.here = d.here
  file : ∃ content, d.kind? (A ++ [name]) = some (.file content)
  free : d.kind? (B ++ [name]) ≠ some .directory
  view : ∀ m, d'.kind? m =
    if m = B ++ [name] then d.kind? (A ++ [name]) else if m = A ++ [name] then none else d.kind? m
  wellFormed : d'.WellFormed

theorem moved_of_sets (hd : d.WellFormed) (hname : IsName name) {content : ByteArray}
    (hfile : d.kind? (A ++ [name]) = some (.file content)) (hB : d.kind? B = some .directory)
    (hne : A ++ [name] ≠ B ++ [name]) (hfree : d.kind? (B ++ [name]) ≠ some .directory) :
    d.Moved ((d.remove (A ++ [name])).put (B ++ [name]) (.file content)) A B name := by
  have hremove := sets_remove hd (by simp) hfile
  have hkept : (d.remove (A ++ [name])).kind? B = some .directory := by
    rw [hremove.view, if_neg, hB]
    rintro rfl
    rw [hfile] at hB
    cases hB
  have hput := sets_put (d := d.remove (A ++ [name])) (Entry.isLeaf_file content) (by trivial) hname
    hkept (by rw [hremove.view, if_neg hne.symm]; exact hfree)
  refine ⟨hput.here.trans hremove.here, ⟨content, hfile⟩, hfree, fun m => ?_,
    hput.wellFormed (hremove.wellFormed hd)⟩
  rw [hput.view, hremove.view, hfile]
  rfl

theorem move_join (hd : d.WellFormed) (ha : d.Leads a A) (hb : d.Leads b B) (hAB : A ≠ B)
    (hname : IsName name) (hfitsA : a.Fits name) (hfitsB : b.Fits name)
    {content : ByteArray} (hfile : d.kind? (A ++ [name]) = some (.file content))
    (hfree : d.kind? (B ++ [name]) ≠ some .directory) :
    ∃ d', d.move (a.join ⟨name⟩) (b.join ⟨name⟩) = .ok d' ∧ d.Moved d' A B name := by
  have hne : A ++ [name] ≠ B ++ [name] := fun h => hAB (List.append_cancel_right h)
  refine ⟨_, ?_, moved_of_sets hd hname hfile hb.directory hne hfree⟩
  have hentry : d.entry? (Target.location ⟨A, name, false⟩) = some (.file content) :=
    (kind?_eq_file_iff _ _).mp hfile
  have hlocations : Target.location ⟨A, name, false⟩ ≠ Target.location ⟨B, name, false⟩ := hne
  simp only [move, target_join_of_fits ha hname hfitsA, target_join_of_fits hb hname hfitsB, bind,
    Except.bind, hname.short, hentry, Bool.false_eq_true, if_false, Bool.or_false]
  split
  · rename_i entries hentry
    exact absurd hentry ((kind?_ne_directory_iff _).mp hfree entries)
  · rw [if_neg hlocations]
    rfl

theorem move_join_ok (hd : d.WellFormed) (ha : d.Leads a A) (hb : d.Leads b B) (hAB : A ≠ B)
    (hname : IsComponent name) (h : d.move (a.join ⟨name⟩) (b.join ⟨name⟩) = .ok d') :
    IsName name ∧ a.Fits name ∧ b.Fits name ∧ d.Moved d' A B name := by
  have hne : A ++ [name] ≠ B ++ [name] := fun h => hAB (List.append_cancel_right h)
  rw [move] at h
  cases hsource : d.target (a.join ⟨name⟩) with
  | error e => rw [hsource] at h; cases h
  | ok s =>
    obtain ⟨hnul, hfitsA, rfl⟩ := of_target_join ha hname hsource
    rw [hsource] at h
    cases hdestination : d.target (b.join ⟨name⟩) with
    | error e => rw [hdestination] at h; cases h
    | ok t =>
      obtain ⟨_, hfitsB, rfl⟩ := of_target_join hb hname hdestination
      rw [hdestination] at h
      have hlocations : Target.location ⟨A, name, false⟩ ≠ Target.location ⟨B, name, false⟩ := hne
      simp only [bind, Except.bind, Bool.or_false, Bool.false_eq_true, if_false] at h
      split at h
      · cases h
      · rename_i hshort
        rw [Bool.not_eq_true] at hshort
        have hisName : IsName name := ⟨hname, hnul, hshort⟩
        split at h
        · cases h
        · cases h
        · rename_i content hentry
          have hfile := (kind?_eq_file_iff _ _).mpr hentry
          simp only [pure, Except.pure] at h
          split at h
          · cases h
          · rename_i hnot
            cases h
            exact ⟨hisName, hfitsA, hfitsB, moved_of_sets hd hisName hfile hb.directory hne
              ((kind?_ne_directory_iff _).mpr hnot)⟩

end Join

end Rulebook.Disk
