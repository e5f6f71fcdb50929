/-!
# Scopes of members

A member is reached from its owner in one of three ways, each with a punctuation mark of its own in
a name path: static members by a point, inner members by a tilde, instance members by a number sign.
-/

namespace DocComment

/-- How a member belongs to its owner. -/
inductive Scope where
  /-- A member of the owner itself. -/
  | static
  /-- A member visible only inside the owner. -/
  | inner
  /-- A member of each instance of the owner. -/
  | perInstance
  deriving DecidableEq, Repr

namespace Scope

/-- The punctuation mark before a member of the `Scope`. -/
def mark : Scope → Char
  | static => '.'
  | inner => '~'
  | perInstance => '#'

/-- The word for the scope. -/
def word : Scope → String
  | static => "static"
  | inner => "inner"
  | perInstance => "instance"

/-- The scope that a punctuation mark announces: the one with this `mark`. -/
def ofMark? (c : Char) : Option Scope :=
  if c == '.' then some static
  else if c == '~' then some inner
  else if c == '#' then some perInstance
  else none

/-- The scope that a word names: the one with this `word`. -/
def ofWord? (s : String) : Option Scope :=
  if s == "static" then some static
  else if s == "inner" then some inner
  else if s == "instance" then some perInstance
  else none

/-- Whether `c` is one of the three punctuation marks. -/
def isMark (c : Char) : Bool :=
  (ofMark? c).isSome

@[simp] theorem ofMark?_mark (s : Scope) : ofMark? s.mark = some s := by
  cases s <;> rfl

@[simp] theorem ofWord?_word (s : Scope) : ofWord? s.word = some s := by
  cases s <;> rfl

end Scope

end DocComment
