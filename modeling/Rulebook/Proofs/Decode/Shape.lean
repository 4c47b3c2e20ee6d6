import Rulebook.Proofs.Decode.Record
import Rulebook.Proofs.Yaml.Depth

/-!
# The shape of decoded values

Decoding does not deepen values and puts the members of objects in order. A property that the blank
record has and that decoding a field keeps is one of every decoded record.
-/

namespace Rulebook

set_option autoImplicit false

namespace Source

mutual

/-- How many containers lie inside one another, without the tags. -/
def depth : Source → Nat
  | .list items _ => depthItems items + 1
  | .table members _ => depthMembers members + 1
  | .tagged content => depth content
  | _ => 0

def depthItems : List Source → Nat
  | [] => 0
  | s :: rest => max (depth s) (depthItems rest)

def depthMembers : List (Source × Source) → Nat
  | [] => 0
  | (_, s) :: rest => max (depth s) (depthMembers rest)

end

theorem depthMembers_le_iff {members : List (Source × Source)} {n : Nat} :
    depthMembers members ≤ n ↔ ∀ member ∈ members, member.2.depth ≤ n := by
  induction members with
  | nil => simp [depthMembers]
  | cons member rest ih => rw [depthMembers, Nat.max_le, ih, List.forall_mem_cons]

theorem depth_bare (s : Source) : s.bare.depth = s.depth := by
  induction s using bare.induct with
  | case1 content ih => rw [bare, ih, depth]
  | case2 s hs => rw [bare.eq_2 s hs]

end Source

namespace Yaml.Node

mutual

theorem depth_toSource (n : Node) : n.toSource.depth = n.depth := by
  cases n with
  | null | bool | number | infinity | notANumber | string => rfl
  | sequence items => rw [toSource, Source.depth, depth, depth_itemSources items]
  | mapping entries => rw [toSource, Source.depth, depth, depth_entrySources entries]
  | tagged tag content => rw [toSource, Source.depth, depth, depth_toSource content]

theorem depth_itemSources (items : List Node) :
    Source.depthItems (itemSources items) = depthItems items := by
  cases items with
  | nil => rfl
  | cons n rest =>
    rw [itemSources, Source.depthItems, depthItems, depth_toSource n, depth_itemSources rest]

theorem depth_entrySources (entries : List (Node × Node)) :
    Source.depthMembers (entrySources entries) = depthEntries entries := by
  cases entries with
  | nil => rfl
  | cons entry rest =>
    obtain ⟨k, v⟩ := entry
    rw [entrySources, Source.depthMembers, depthEntries, depth_toSource v, depth_entrySources rest]

end

end Yaml.Node

namespace Decode

variable {α : Type}

theorem endOf_ok {flaw : Option Json.Flaw} {value value' : α} (h : endOf flaw value = .ok value') :
    value' = value := by
  cases flaw <;> cases h
  rfl

theorem inside_ok {step : Step} {result : Except Error α} {value : α}
    (h : inside step result = .ok value) : result = .ok value := by
  cases result <;> cases h
  rfl

theorem keyText_ok_iff {expected name : String} {source : Source} :
    keyText expected source = .ok name ↔ text source = .ok name := by
  rw [keyText, text]
  cases source.bare <;> simp

/-! ## Plain values -/

mutual

theorem json_shape (s : Source) (v : Json) (h : json s = .ok v) : v.IsOrdered ∧ v.depth ≤ s.depth := by
  cases s with
  | unreadable | tagged =>
    rw [json] at h
    cases h
  | nothing | bool | number | limit | text =>
    rw [json] at h
    cases h
    exact ⟨trivial, Nat.zero_le _⟩
  | list items flaw =>
    rw [json] at h
    obtain ⟨vs, hitems, hend⟩ := Except.bind_ok h
    rw [endOf_ok hend]
    obtain ⟨hordered, hdepth⟩ := jsonItems_shape items vs hitems
    exact ⟨hordered, Nat.succ_le_succ hdepth⟩
  | table members flaw =>
    rw [json] at h
    obtain ⟨table, hmembers, hend⟩ := Except.bind_ok h
    rw [endOf_ok hend]
    obtain ⟨hrising, hvalues⟩ := jsonMembers_shape members [] table "a string key"
      (Source.depthMembers members) .nil (fun _ hentry => nomatch hentry) (Nat.le_refl _) hmembers
    exact ⟨⟨hrising, Json.membersOrdered_iff.mpr fun entry hentry => (hvalues entry hentry).1⟩,
      Nat.succ_le_succ (Json.depthMembers_le_iff.mpr fun entry hentry => (hvalues entry hentry).2)⟩

theorem jsonItems_shape (items : List Source) (vs : List Json) (h : jsonItems items = .ok vs) :
    Json.AreOrdered vs ∧ Json.depthItems vs ≤ Source.depthItems items := by
  cases items with
  | nil =>
    rw [jsonItems] at h
    cases h
    exact ⟨trivial, Nat.le_refl _⟩
  | cons s rest =>
    rw [jsonItems] at h
    obtain ⟨v, hv, h⟩ := Except.bind_ok h
    obtain ⟨others, hothers, hreturn⟩ := Except.bind_ok h
    cases hreturn
    obtain ⟨hordered, hdepth⟩ := json_shape s v hv
    obtain ⟨hrest, hdepths⟩ := jsonItems_shape rest others hothers
    refine ⟨⟨hordered, hrest⟩, ?_⟩
    rw [Json.depthItems, Source.depthItems]
    omega

theorem jsonMembers_shape (members : List (Source × Source)) (start table : Keyed Json)
    (expected : String) (n : Nat) (hrising : start.Rising)
    (hstart : ∀ entry ∈ start, entry.2.IsOrdered ∧ entry.2.depth ≤ n)
    (hdepth : Source.depthMembers members ≤ n) (h : jsonMembers expected start members = .ok table) :
    table.Rising ∧ ∀ entry ∈ table, entry.2.IsOrdered ∧ entry.2.depth ≤ n := by
  cases members with
  | nil =>
    rw [jsonMembers] at h
    cases h
    exact ⟨hrising, hstart⟩
  | cons member rest =>
    obtain ⟨k, s⟩ := member
    rw [Source.depthMembers] at hdepth
    rw [jsonMembers] at h
    obtain ⟨key, _, h⟩ := Except.bind_ok h
    obtain ⟨v, hv, h⟩ := Except.bind_ok h
    obtain ⟨hordered, hshallow⟩ := json_shape s v hv
    refine jsonMembers_shape rest _ table "a string" n (Keyed.rising_insert key v hrising)
      (fun entry hentry => ?_) (by omega) h
    rcases Keyed.mem_insert hentry with rfl | hentry
    · exact ⟨hordered, by dsimp only; omega⟩
    · exact hstart entry hentry

end

theorem foldlM_keyedMember_shape {members : List (Source × Source)} {start table : Keyed Json} {n : Nat}
    (hrising : start.Rising)
    (hstart : ∀ entry ∈ start, entry.2.IsOrdered ∧ entry.2.depth ≤ n)
    (hdepth : Source.depthMembers members ≤ n)
    (h : members.foldlM (keyedMember json) start = .ok table) :
    table.Rising ∧ ∀ entry ∈ table, entry.2.IsOrdered ∧ entry.2.depth ≤ n := by
  induction members generalizing start with
  | nil =>
    cases h
    exact ⟨hrising, hstart⟩
  | cons member rest ih =>
    obtain ⟨k, s⟩ := member
    rw [Source.depthMembers] at hdepth
    rw [List.foldlM_cons] at h
    obtain ⟨next, hnext, h⟩ := Except.bind_ok h
    obtain ⟨key, _, hnext⟩ := Except.bind_ok hnext
    obtain ⟨v, hv, hnext⟩ := Except.bind_ok hnext
    cases hnext
    obtain ⟨hordered, hshallow⟩ := json_shape s v (inside_ok hv)
    refine ih (Keyed.rising_insert key v hrising) (fun entry hentry => ?_) (by omega) h
    rcases Keyed.mem_insert hentry with rfl | hentry
    · exact ⟨hordered, by dsimp only; omega⟩
    · exact hstart entry hentry

/-- A decoded table is in order, and its values lie less deep than the table did. -/
theorem keyed_json_shape {dialect : Dialect} {source : Source} {table : Keyed Json} {n : Nat}
    (hdepth : source.depth ≤ n + 1) (h : keyed dialect json source = .ok table) :
    table.Rising ∧ ∀ entry ∈ table, entry.2.IsOrdered ∧ entry.2.depth ≤ n := by
  rw [keyed] at h
  split at h
  · rename_i members flaw hbare
    rw [← Source.depth_bare, hbare, Source.depth] at hdepth
    obtain ⟨value, hfold, hend⟩ := Except.bind_ok h
    rw [endOf_ok hend]
    exact foldlM_keyedMember_shape .nil (fun _ hentry => nomatch hentry) (by omega) hfold
  · split at h <;> cases h
    exact ⟨.nil, fun _ hentry => nomatch hentry⟩
  · cases h

/-! ## Records -/

namespace Layout

variable {layout : Layout α} {P : α → Prop}

/-- What a member that was read can have been: one of a field that is new, or one to skip. -/
theorem step_cases {progress progress' : α × List String} {member : Source × Source}
    (h : layout.step progress member = .ok progress') :
    ∃ name, text member.1 = .ok name ∧
      ((name ∈ layout.fields ∧ name ∉ progress.2 ∧ progress'.2 = name :: progress.2 ∧
          layout.put progress.1 name member.2 = .ok progress'.1) ∨
        (name ∉ layout.fields ∧ layout.strict = false ∧ progress' = progress)) := by
  rw [step] at h
  obtain ⟨name, hname, h⟩ := Except.bind_ok h
  refine ⟨name, keyText_ok_iff.mp hname, ?_⟩
  dsimp only at h
  split at h
  · rename_i hfield
    split at h
    · cases h
    · rename_i hnew
      obtain ⟨value, hvalue, h⟩ := Except.bind_ok h
      cases h
      exact .inl ⟨hfield, hnew, rfl, inside_ok hvalue⟩
  · rename_i hfield
    split at h
    · cases h
    · rename_i hloose
      exact .inr ⟨hfield, Bool.eq_false_iff.mpr hloose, endOf_ok h⟩

theorem step_induct {n : Nat} (hput : ∀ value name source value', P value → source.depth ≤ n →
      layout.put value name source = .ok value' → P value')
    {progress progress' : α × List String} {member : Source × Source} (hP : P progress.1)
    (hdepth : member.2.depth ≤ n) (h : layout.step progress member = .ok progress') :
    P progress'.1 := by
  obtain ⟨name, -, ⟨-, -, -, hvalue⟩ | ⟨-, -, rfl⟩⟩ := step_cases h
  · exact hput _ _ _ _ hP hdepth hvalue
  · exact hP

theorem foldlM_step_induct {n : Nat} (hput : ∀ value name source value', P value → source.depth ≤ n →
      layout.put value name source = .ok value' → P value')
    {members : List (Source × Source)} {progress progress' : α × List String} (hP : P progress.1)
    (hdepth : Source.depthMembers members ≤ n)
    (h : members.foldlM layout.step progress = .ok progress') : P progress'.1 := by
  induction members generalizing progress with
  | nil =>
    cases h
    exact hP
  | cons member rest ih =>
    rw [List.foldlM_cons] at h
    obtain ⟨next, hnext, h⟩ := Except.bind_ok h
    have hdepths := Source.depthMembers_le_iff.mp hdepth
    refine ih (step_induct hput hP (hdepths member List.mem_cons_self) hnext) ?_ h
    exact Source.depthMembers_le_iff.mpr fun other hother =>
      hdepths other (List.mem_cons_of_mem _ hother)

theorem ofMembers_induct {n : Nat} (hblank : P layout.blank)
    (hput : ∀ value name source value', P value → source.depth ≤ n →
      layout.put value name source = .ok value' → P value')
    {members : List (Source × Source)} {flaw : Option Json.Flaw} {value : α}
    (hdepth : Source.depthMembers members ≤ n) (h : layout.ofMembers members flaw = .ok value) :
    P value := by
  rw [ofMembers] at h
  obtain ⟨progress, hfold, h⟩ := Except.bind_ok h
  obtain ⟨⟨last, seen⟩, hend, h⟩ := Except.bind_ok h
  have hlast := foldlM_step_induct hput hblank hdepth hfold
  rw [← endOf_ok hend] at hlast
  dsimp only at h
  split at h
  · cases h
  · cases h
    exact hlast

/-- What the blank record has and decoding a field keeps, a decoded record has. -/
theorem decode_induct {dialect : Dialect} {n : Nat} (hrecord : dialect.listsAsRecords = false)
    (hblank : P layout.blank)
    (hput : ∀ value name source value', P value → source.depth ≤ n →
      layout.put value name source = .ok value' → P value')
    {source : Source} {value : α} (hdepth : source.depth ≤ n + 1)
    (h : layout.decode dialect source = .ok value) : P value := by
  rw [decode] at h
  split at h
  · rename_i members flaw hbare
    rw [← Source.depth_bare, hbare, Source.depth] at hdepth
    exact ofMembers_induct hblank hput (by omega) h
  · rw [hrecord] at h
    cases h
  · split at h
    · exact ofMembers_induct hblank hput (Nat.zero_le _) h
    · cases h
  · cases h

end Layout

end Decode

end Rulebook
