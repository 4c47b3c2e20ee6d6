import Rulebook.Json.Value
import Rulebook.Keyed

/-!
# The shape of JSON values

How deep a value goes, whether it holds doubles, and whether its objects list their members in order.
-/

namespace Rulebook.Json

set_option autoImplicit false

mutual

/-- How many containers lie inside one another. -/
def depth : Json → Nat
  | .array items => depthItems items + 1
  | .object members => depthMembers members + 1
  | _ => 0

def depthItems : List Json → Nat
  | [] => 0
  | v :: rest => max (depth v) (depthItems rest)

def depthMembers : List (String × Json) → Nat
  | [] => 0
  | (_, v) :: rest => max (depth v) (depthMembers rest)

end

mutual

/-- There is no double in the value. -/
def isIntegral : Json → Bool
  | .number (.real _) => false
  | .array items => areIntegral items
  | .object members => membersIntegral members
  | _ => true

def areIntegral : List Json → Bool
  | [] => true
  | v :: rest => isIntegral v && areIntegral rest

def membersIntegral : List (String × Json) → Bool
  | [] => true
  | (_, v) :: rest => isIntegral v && membersIntegral rest

end

mutual

/-- Every object of the value lists its members in key order. -/
def IsOrdered : Json → Prop
  | .array items => AreOrdered items
  | .object members => Keyed.Rising members ∧ MembersOrdered members
  | _ => True

def AreOrdered : List Json → Prop
  | [] => True
  | v :: rest => IsOrdered v ∧ AreOrdered rest

def MembersOrdered : List (String × Json) → Prop
  | [] => True
  | (_, v) :: rest => IsOrdered v ∧ MembersOrdered rest

end

theorem depthItems_le_iff {items : List Json} {n : Nat} :
    depthItems items ≤ n ↔ ∀ v ∈ items, v.depth ≤ n := by
  induction items with
  | nil => simp [depthItems]
  | cons v rest ih => rw [depthItems, Nat.max_le, ih, List.forall_mem_cons]

theorem depthMembers_le_iff {members : List (String × Json)} {n : Nat} :
    depthMembers members ≤ n ↔ ∀ member ∈ members, member.2.depth ≤ n := by
  induction members with
  | nil => simp [depthMembers]
  | cons member rest ih => rw [depthMembers, Nat.max_le, ih, List.forall_mem_cons]

theorem areIntegral_iff {items : List Json} :
    areIntegral items = true ↔ ∀ v ∈ items, v.isIntegral = true := by
  induction items with
  | nil => simp [areIntegral]
  | cons v rest ih => simp [areIntegral, ih]

theorem membersIntegral_iff {members : List (String × Json)} :
    membersIntegral members = true ↔ ∀ member ∈ members, member.2.isIntegral = true := by
  induction members with
  | nil => simp [membersIntegral]
  | cons member rest ih => simp [membersIntegral, ih]

theorem depthMembers_append (members more : List (String × Json)) :
    depthMembers (members ++ more) = max (depthMembers members) (depthMembers more) := by
  induction members with
  | nil => simp [depthMembers]
  | cons member rest ih => simp [depthMembers, ih, Nat.max_assoc]

theorem membersIntegral_append (members more : List (String × Json)) :
    membersIntegral (members ++ more) = (membersIntegral members && membersIntegral more) := by
  induction members with
  | nil => simp [membersIntegral]
  | cons member rest ih => simp [membersIntegral, ih, Bool.and_assoc]

theorem areOrdered_iff {items : List Json} : AreOrdered items ↔ ∀ v ∈ items, v.IsOrdered := by
  induction items with
  | nil => simp [AreOrdered]
  | cons v rest ih => simp [AreOrdered, ih]

theorem membersOrdered_iff {members : List (String × Json)} :
    MembersOrdered members ↔ ∀ member ∈ members, member.2.IsOrdered := by
  induction members with
  | nil => simp [MembersOrdered]
  | cons member rest ih => simp [MembersOrdered, ih]

theorem membersOrdered_append (members more : List (String × Json)) :
    MembersOrdered (members ++ more) ↔ MembersOrdered members ∧ MembersOrdered more := by
  induction members with
  | nil => simp [MembersOrdered]
  | cons member rest ih => simp [MembersOrdered, ih, and_assoc]

theorem isOrdered_of_depth {v : Json} (h : v.depth = 0) : v.IsOrdered := by
  cases v with
  | null | bool | number | string => trivial
  | array items => exact absurd h (Nat.succ_ne_zero _)
  | object members => exact absurd h (Nat.succ_ne_zero _)

end Rulebook.Json
