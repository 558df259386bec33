/-!
# Kinds of joins

A join pairs rows of a left and a right source. Its kind tells which pairings are joined rows: a pair
always is, and a row without a partner is if its side is an outer one.
-/

namespace LiveTables

/-- A side of a join. -/
inductive Side where
  | left
  | right
  deriving DecidableEq

namespace Side

/-- The opposite side. -/
def other : Side → Side
  | left => right
  | right => left

/-- The name under which a side is shown. -/
def name : Side → String
  | left => "Left"
  | right => "Right"

@[simp] theorem other_other (s : Side) : s.other.other = s := by cases s <;> rfl

end Side

/-- The kind of a join. -/
inductive JoinKind where
  | inner
  | leftOuter
  | rightOuter
  | fullOuter
  deriving DecidableEq

namespace JoinKind

/-- Every kind, in order. -/
def all : List JoinKind := [inner, leftOuter, rightOuter, fullOuter]

/-- The name under which a kind is shown. -/
def name : JoinKind → String
  | inner => "Inner"
  | leftOuter => "LeftOuter"
  | rightOuter => "RightOuter"
  | fullOuter => "FullOuter"

/-- The kind of a given name. -/
def ofName? (s : String) : Option JoinKind := all.find? (·.name = s)

/-- Whether rows of a side are joined rows even without a partner. -/
def isOuter : JoinKind → Side → Bool
  | inner, _ => false
  | leftOuter, s => s = .left
  | rightOuter, s => s = .right
  | fullOuter, _ => true

/-- Whether a pairing with the given sides is a joined row. -/
def isVisible (k : JoinKind) (left right : Bool) : Bool :=
  match left, right with
  | true, true => true
  | true, false => k.isOuter .left
  | false, true => k.isOuter .right
  | false, false => false

end JoinKind

end LiveTables
