/-!
# Workers

How many workers share a list of items, and the shares: contiguous and, but for the last, equally
long. Joining the workers' results in order gives the results in the order of the items.
-/

namespace Rulebook

set_option autoImplicit false

/-- At least one worker and no more than there are items; a request for none asks for as many as
the machine runs at once. -/
def effectiveWorkers (available requested items : Nat) : Nat :=
  max 1 (min (if requested = 0 then available else requested) (max items 1))

/-- The list cut into shares of a size. -/
def shares {α : Type} (size : Nat) : Nat → List α → List (List α)
  | 0, _ => []
  | _, [] => []
  | fuel + 1, xs => xs.take size :: shares size fuel (xs.drop size)

/-- How long the shares are, if there is more than one worker to take them. -/
def shareSize (workers items : Nat) : Nat := (items + workers - 1) / workers

/-- A worker that is alone takes the list as it is, and otherwise each works on its own share. -/
def shareOut {α β : Type} (workers : Nat) (work : α → β) (items : List α) : List β :=
  if workers = 1 then items.map work
  else (shares (shareSize workers items.length) items.length items).flatMap (List.map work)

end Rulebook
