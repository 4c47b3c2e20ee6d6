/-!
# Glob patterns

A question mark stands for one character, an asterisk for any text, brackets for one character of a
class or outside of it, and two asterisks, which must be a whole piece between slashes, for any
directories. Nothing is special about slashes and leading dots otherwise, and case matters.
-/

namespace Rulebook

set_option autoImplicit false

namespace Glob

/-- A range of characters in a class. -/
structure CharRange where
  first : Char
  last : Char
deriving DecidableEq, Repr

inductive Piece where
  | char (c : Char)
  | anyChar
  | anyText
  | anyDirectories
  | oneOf (ranges : List CharRange)
  | noneOf (ranges : List CharRange)
deriving DecidableEq, Repr

inductive Fault where
  | manyAsterisks
  | notAWholePiece
  | badRange
deriving DecidableEq, Repr

/-- Why a text is no pattern, and at which character. -/
structure Error where
  position : Nat
  fault : Fault
deriving DecidableEq, Repr

def Fault.message : Fault → String
  | .manyAsterisks => "wildcards are either regular \x60*\x60 or recursive \x60**\x60"
  | .notAWholePiece => "recursive wildcards must form a single path component"
  | .badRange => "invalid range pattern"

def Error.message (e : Error) : String :=
  "Pattern syntax error near position " ++ toString e.position ++ ": " ++ e.fault.message

/-- The ranges of a class; a hyphen between two characters makes a range of them. -/
def ranges : List Char → List CharRange
  | [] => []
  | a :: '-' :: b :: rest => ⟨a, b⟩ :: ranges rest
  | a :: rest => ⟨a, a⟩ :: ranges rest

/-- A class after its opening bracket: at least one character, then up to the next closing bracket.
Also gives how many characters the class takes. -/
def readClass (cs : List Char) : Option (List CharRange × Nat) :=
  match cs with
  | first :: rest =>
    let more := rest.takeWhile (· != ']')
    if more.length < rest.length then some (ranges (first :: more), more.length + 2) else none
  | [] => none

/-- The piece at an opening bracket, and how many characters it takes. -/
def readBracket (afterBracket : List Char) : Option (Piece × Nat) :=
  match afterBracket with
  | '!' :: rest => (readClass rest).map fun (rs, n) => (.noneOf rs, n + 2)
  | cs => (readClass cs).map fun (rs, n) => (.oneOf rs, n + 1)

/-- Adds any directories, unless the last of at least two pieces is just that. -/
def addDirectories (pieces : List Piece) : List Piece :=
  if 1 < pieces.length && pieces.getLast? == some .anyDirectories then pieces
  else pieces ++ [.anyDirectories]

/-- Reads pieces from a position on; `before` is the character in front of it. -/
def readPieces : Nat → List Piece → Nat → Option Char → List Char → Except Error (List Piece)
  | 0, pieces, _, _, _ => .ok pieces
  | fuel + 1, pieces, position, before, cs =>
    match cs with
    | [] => .ok pieces
    | '?' :: rest => readPieces fuel (pieces ++ [.anyChar]) (position + 1) (some '?') rest
    | '*' :: _ =>
      let count := (cs.takeWhile (· == '*')).length
      let rest := cs.drop count
      if 2 < count then .error ⟨position + 2, .manyAsterisks⟩
      else if count = 1 then
        readPieces fuel (pieces ++ [.anyText]) (position + 1) (some '*') rest
      else if before.any (· != '/') then .error ⟨position - 1, .notAWholePiece⟩
      else match rest with
      | [] => .ok (addDirectories pieces)
      | '/' :: rest => readPieces fuel (addDirectories pieces) (position + 3) (some '/') rest
      | _ => .error ⟨position + 2, .notAWholePiece⟩
    | '[' :: rest =>
      match readBracket rest with
      | some (piece, n) =>
        readPieces fuel (pieces ++ [piece]) (position + n) (some ']') (cs.drop n)
      | none => .error ⟨position, .badRange⟩
    | c :: rest => readPieces fuel (pieces ++ [.char c]) (position + 1) (some c) rest

def CharRange.contains (r : CharRange) (c : Char) : Bool := r.first ≤ c && c ≤ r.last

/-- Whether a piece for one character admits it. -/
def Piece.admits (c : Char) : Piece → Bool
  | .char d => c == d
  | .anyChar => true
  | .oneOf rs => rs.any (·.contains c)
  | .noneOf rs => !rs.any (·.contains c)
  | .anyText | .anyDirectories => false

def suffixes : List Char → List (List Char)
  | [] => [[]]
  | c :: cs => (c :: cs) :: suffixes cs

/-- What follows each slash of a text. -/
def afterSlashes : List Char → List (List Char)
  | [] => []
  | c :: cs => if c = '/' then cs :: afterSlashes cs else afterSlashes cs

def piecesMatch : List Piece → List Char → Bool
  | [], cs => cs.isEmpty
  | .anyText :: rest, cs => (suffixes cs).any fun tail => piecesMatch rest tail
  | .anyDirectories :: rest, cs =>
    (cs :: [] :: afterSlashes cs).any fun tail => piecesMatch rest tail
  | piece :: rest, c :: cs => piece.admits c && piecesMatch rest cs
  | _ :: _, [] => false

/-! ## Matching in rows

A row says of every suffix of a text, the longest first, whether some pieces match it. The row of
more pieces comes from that of fewer in one pass, so no suffix is tried twice. -/

def textRow : List Bool → List Bool
  | [] => []
  | b :: row => (b || (textRow row).headD false) :: textRow row

/-- The row of any directories, and whether one of them can end behind the first character. -/
def directoriesRow : List Char → List Bool → List Bool × Bool
  | c :: cs, b :: row =>
    let (behind, later) := directoriesRow cs row
    let here := (c == '/' && row.headD false) || later
    ((b || here) :: behind, here)
  | _, row => (row, row.headD false)

def charRow (piece : Piece) (cs : List Char) (row : List Bool) : List Bool :=
  cs.zipWith (fun c b => piece.admits c && b) row.tail ++ [false]

def row (cs : List Char) : List Piece → List Bool
  | [] => (suffixes cs).map List.isEmpty
  | .anyText :: rest => textRow (row cs rest)
  | .anyDirectories :: rest => (directoriesRow cs (row cs rest)).1
  | piece :: rest => charRow piece cs (row cs rest)

def allMatch (pieces : List Piece) (cs : List Char) : Bool := (row cs pieces).headD false

theorem head_map_suffixes (f : List Char → Bool) (cs : List Char) :
    ((suffixes cs).map f).headD false = f cs := by
  cases cs <;> rfl

theorem textRow_map_suffixes (f : List Char → Bool) (cs : List Char) :
    textRow ((suffixes cs).map f) = (suffixes cs).map fun tail => (suffixes tail).any f := by
  induction cs with
  | nil => simp [suffixes, textRow]
  | cons c cs ih =>
    simp only [suffixes, List.map_cons, textRow, ih, head_map_suffixes, List.any_cons]

theorem directoriesRow_map_suffixes (f : List Char → Bool) (cs : List Char) :
    directoriesRow cs ((suffixes cs).map f) =
      ((suffixes cs).map fun tail => (tail :: [] :: afterSlashes tail).any f,
        ([] :: afterSlashes cs).any f) := by
  induction cs with
  | nil => simp [suffixes, directoriesRow, afterSlashes]
  | cons c cs ih =>
    simp only [suffixes, List.map_cons, directoriesRow, ih, head_map_suffixes]
    by_cases h : c = '/'
    · simp [afterSlashes, h, Bool.or_left_comm]
    · simp [afterSlashes, h, beq_false_of_ne h]

theorem charRow_map_suffixes (piece : Piece) (f : List Char → Bool) (cs : List Char) :
    charRow piece cs ((suffixes cs).map f) = (suffixes cs).map fun
      | [] => false
      | c :: tail => piece.admits c && f tail := by
  induction cs with
  | nil => rfl
  | cons c cs ih =>
    cases cs with
    | nil => simp [charRow, suffixes]
    | cons d cs =>
      simp only [charRow, suffixes, List.map_cons, List.tail_cons, List.zipWith_cons_cons,
        List.cons_append] at ih ⊢
      rw [← ih]

theorem row_eq_map_suffixes (pieces : List Piece) (cs : List Char) :
    row cs pieces = (suffixes cs).map (piecesMatch pieces) := by
  induction pieces with
  | nil =>
    simp only [row]
    exact List.map_congr_left fun tail _ => by simp [piecesMatch]
  | cons piece rest ih =>
    cases piece with
    | anyText =>
      simp only [row, ih, textRow_map_suffixes]
      exact List.map_congr_left fun tail _ => by simp only [piecesMatch]
    | anyDirectories =>
      simp only [row, ih, directoriesRow_map_suffixes]
      exact List.map_congr_left fun tail _ => by simp only [piecesMatch]
    | char d | anyChar | oneOf rs | noneOf rs =>
      simp only [row, ih, charRow_map_suffixes]
      exact List.map_congr_left fun tail _ => by cases tail <;> simp only [piecesMatch]

theorem allMatch_eq (pieces : List Piece) (cs : List Char) :
    allMatch pieces cs = piecesMatch pieces cs := by
  rw [allMatch, row_eq_map_suffixes, head_map_suffixes]

end Glob

structure Glob where
  text : String
  pieces : List Glob.Piece
deriving DecidableEq, Repr

namespace Glob

def parse (text : String) : Except Error Glob := do
  let cs := text.toList
  return ⟨text, ← readPieces cs.length [] 0 none cs⟩

def accepts (pattern : Glob) (s : String) : Bool := allMatch pattern.pieces s.toList

end Glob

end Rulebook
