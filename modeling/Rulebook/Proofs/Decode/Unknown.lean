import Rulebook.Decode.Record

/-!
# Members that no field has the name of

A record that is not strict is decoded as if such a member were not there, and a strict one is refused
with it. What is decoded of a record or of a list depends only on what is decoded of its parts.
-/

namespace Rulebook.Decode

set_option autoImplicit false

section

variable {β ι : Type} {f : β → ι → Except Error β} {x y : ι} (before after : List ι)

/-- Steps that do the same can stand for each other. -/
theorem foldlM_same (h : ∀ b, f b x = f b y) (b : β) :
    (before ++ x :: after).foldlM f b = (before ++ y :: after).foldlM f b := by
  simp only [List.foldlM_append, List.foldlM_cons, h]

/-- A step that does nothing can be left out. -/
theorem foldlM_idle (h : ∀ b, f b x = .ok b) (b : β) :
    (before ++ x :: after).foldlM f b = (before ++ after).foldlM f b := by
  simp only [List.foldlM_append, List.foldlM_cons, h, bind, Except.bind]

/-- A step that cannot be done leads nowhere. -/
theorem foldlM_stuck (h : ∀ b, ∃ e, f b x = .error e) (b : β) :
    ∃ e, (before ++ x :: after).foldlM f b = .error e := by
  rw [List.foldlM_append]
  cases before.foldlM f b with
  | error e => exact ⟨e, rfl⟩
  | ok b' =>
    obtain ⟨e, he⟩ := h b'
    exact ⟨e, by simp only [List.foldlM_cons, he, bind, Except.bind]⟩

end

variable {α : Type}

theorem items_same {d : Decoder α} {s s' : Source} (h : d s = d s') (before after : List Source)
    (i : Nat) : items d i (before ++ s :: after) = items d i (before ++ s' :: after) := by
  induction before generalizing i with
  | nil => simp only [List.nil_append, items, h]
  | cons first rest ih => simp only [List.cons_append, items, ih]

theorem list_same (dialect : Dialect) {d : Decoder α} {s s' : Source} (h : d s = d s')
    (before after : List Source) (flaw : Option Json.Flaw) :
    list dialect d (.list (before ++ s :: after) flaw) =
      list dialect d (.list (before ++ s' :: after) flaw) := by
  simp only [list, Source.bare, items_same h]

namespace Layout

variable {layout : Layout α} {dialect : Dialect} {before after : List (Source × Source)}
  {firstItems lastItems : List Source} {name : String} {v v' : Source}

/-! ## Unknown members -/

theorem step_loose (hloose : layout.strict = false) (hname : name ∉ layout.fields)
    (hv : v.flaw? = none) (progress : α × List String) :
    layout.step progress (.text name, v) = .ok progress := by
  simp only [step, keyText, Source.bare, bind, Except.bind, if_neg hname, hloose, hv, endOf,
    Bool.false_eq_true, if_false]

theorem step_strict (hstrict : layout.strict = true) (hname : name ∉ layout.fields)
    (progress : α × List String) : ∃ e, layout.step progress (.text name, v) = .error e := by
  refine ⟨.within (.name name) (.unknownField name layout.fields), ?_⟩
  simp only [step, keyText, Source.bare, bind, Except.bind, if_neg hname, hstrict, if_true]
  rfl

/-- A member of an unknown name is as good as none. -/
theorem decode_loose (hloose : layout.strict = false) (hname : name ∉ layout.fields)
    (hv : v.flaw? = none) (flaw : Option Json.Flaw) :
    layout.decode dialect (.table (before ++ (.text name, v) :: after) flaw) =
      layout.decode dialect (.table (before ++ after) flaw) := by
  simp only [decode, Source.bare, ofMembers, foldlM_idle before after (step_loose hloose hname hv)]

theorem decode_strict (hstrict : layout.strict = true) (hname : name ∉ layout.fields)
    (flaw : Option Json.Flaw) :
    ∃ e, layout.decode dialect (.table (before ++ (.text name, v) :: after) flaw) = .error e := by
  obtain ⟨e, he⟩ := foldlM_stuck before after (step_strict (v := v) hstrict hname)
    (layout.blank, [])
  exact ⟨e, by simp only [decode, Source.bare, ofMembers, he, bind, Except.bind]⟩

/-! ## One field -/

theorem step_same (hname : name ∈ layout.fields)
    (h : ∀ value, layout.put value name v = layout.put value name v') (progress : α × List String) :
    layout.step progress (.text name, v) = layout.step progress (.text name, v') := by
  simp only [step, keyText, Source.bare, bind, Except.bind, if_pos hname, h]

theorem step_stuck (hname : name ∈ layout.fields)
    (h : ∀ value, ∃ e, layout.put value name v = .error e) (progress : α × List String) :
    ∃ e, layout.step progress (.text name, v) = .error e := by
  obtain ⟨e, he⟩ := h progress.1
  by_cases hseen : name ∈ progress.2
  · refine ⟨.within (.name name) (.duplicateField name), ?_⟩
    simp only [step, keyText, Source.bare, bind, Except.bind, if_pos hname, if_pos hseen]
    rfl
  · refine ⟨.within (.member name) e, ?_⟩
    simp only [step, keyText, Source.bare, bind, Except.bind, if_pos hname, if_neg hseen, he]
    rfl

theorem decode_same_member (hname : name ∈ layout.fields)
    (h : ∀ value, layout.put value name v = layout.put value name v') (flaw : Option Json.Flaw) :
    layout.decode dialect (.table (before ++ (.text name, v) :: after) flaw) =
      layout.decode dialect (.table (before ++ (.text name, v') :: after) flaw) := by
  simp only [decode, Source.bare, ofMembers, foldlM_same before after (step_same hname h)]

theorem decode_stuck_member (hname : name ∈ layout.fields)
    (h : ∀ value, ∃ e, layout.put value name v = .error e) (flaw : Option Json.Flaw) :
    ∃ e, layout.decode dialect (.table (before ++ (.text name, v) :: after) flaw) = .error e := by
  obtain ⟨e, he⟩ := foldlM_stuck before after (step_stuck hname h) (layout.blank, [])
  exact ⟨e, by simp only [decode, Source.bare, ofMembers, he, bind, Except.bind]⟩

theorem zipIdx_fields (h : layout.fields[firstItems.length]? = some name) (lastItems : List Source) :
    ∃ before after, ∀ v, (layout.fields.zip (firstItems ++ v :: lastItems)).zipIdx =
      before ++ ((name, v), firstItems.length) :: after := by
  obtain ⟨hlt, hget⟩ := List.getElem?_eq_some_iff.mp h
  -- the fields are cut where the item stands, so that both lists pair up part by part
  obtain ⟨first, last, hfields, hlength⟩ : ∃ first last, layout.fields = first ++ name :: last ∧
      first.length = firstItems.length := by
    refine ⟨layout.fields.take firstItems.length, layout.fields.drop (firstItems.length + 1), ?_, ?_⟩
    · rw [← hget, ← List.drop_eq_getElem_cons hlt, List.take_append_drop]
    · exact List.length_take_of_le (Nat.le_of_lt hlt)
  refine ⟨(first.zip firstItems).zipIdx, (last.zip lastItems).zipIdx (firstItems.length + 1),
    fun v => ?_⟩
  rw [hfields, List.zip_append hlength, List.zip_cons_cons, List.zipIdx_append, List.zipIdx_cons,
    List.length_zip, hlength, Nat.min_self, Nat.zero_add]

theorem decode_same_item (h : layout.fields[firstItems.length]? = some name)
    (hput : ∀ value, layout.put value name v = layout.put value name v') (flaw : Option Json.Flaw) :
    layout.decode dialect (.list (firstItems ++ v :: lastItems) flaw) =
      layout.decode dialect (.list (firstItems ++ v' :: lastItems) flaw) := by
  obtain ⟨before, after, hzip⟩ := zipIdx_fields h lastItems
  simp only [decode, Source.bare, ofItems, hzip, List.length_append, List.length_cons]
  rw [foldlM_same before after (y := ((name, v'), firstItems.length)) fun value => by simp only [hput]]
  rfl

theorem decode_stuck_item (h : layout.fields[firstItems.length]? = some name)
    (hput : ∀ value, ∃ e, layout.put value name v = .error e) (flaw : Option Json.Flaw) :
    ∃ e, layout.decode dialect (.list (firstItems ++ v :: lastItems) flaw) = .error e := by
  obtain ⟨before, after, hzip⟩ := zipIdx_fields h lastItems
  obtain ⟨e, he⟩ := foldlM_stuck before after (x := ((name, v), firstItems.length))
    (f := fun value x => inside (.item x.2) (layout.put value x.1.1 x.1.2)) (fun value => by
      obtain ⟨e, he⟩ := hput value
      exact ⟨.within (.item firstItems.length) e, by rw [he]; rfl⟩) layout.blank
  simp only [decode, Source.bare]
  split
  · exact ⟨e, by simp only [ofItems, hzip, he, bind, Except.bind]⟩
  · exact ⟨_, rfl⟩

end Layout

end Rulebook.Decode
