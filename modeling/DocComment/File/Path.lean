/-!
# Paths

A path is a chain of names, from the root or from wherever one stands. Empty names and single points
say nothing and are dropped; double points stay, because only a walk can tell where they lead. Two
slashes at the start, and not more, are kept as they are.

- `Path.ofString` - the path that a text spells; `Path.toText` - its text.
- `Path.join` - a path seen from another one.
- `Path.normal` - a path from the root, with double points resolved by name.
- `Path.homeOwner?` - the user whose home a path starts in; `Path.inHome` - the path once that is
  known.
-/

namespace DocComment

/-- Where a path starts. -/
inductive Path.Start where
  /-- Wherever one stands. -/
  | here
  /-- The root. -/
  | root
  /-- The root, written with two slashes. -/
  | doubleRoot
  deriving DecidableEq, Repr

/-- A chain of names. -/
structure Path where
  /-- Where it starts. -/
  start : Path.Start
  /-- The names. -/
  parts : List String
  deriving DecidableEq, Repr

namespace Path

/-- The pieces of `cs` between slashes. -/
def betweenSlashes : List Char → List (List Char)
  | [] => [[]]
  | c :: rest =>
    if c == '/' then [] :: betweenSlashes rest
    else
      match betweenSlashes rest with
      | [] => [[c]]
      | piece :: more => (c :: piece) :: more

/-- The `Path.Start` of a path, by the number of its slashes in front. -/
def Start.ofSlashes : Nat → Start
  | 0 => .here
  | 2 => .doubleRoot
  | _ => .root

/-- The text of a start. -/
def Start.toText : Start → String
  | here => ""
  | root => "/"
  | doubleRoot => "//"

/-- The **path that a text spells**: the pieces `betweenSlashes`, of which empty ones and single
points say nothing. -/
def ofString (s : String) : Path where
  start := .ofSlashes (s.toList.takeWhile (· == '/')).length
  parts := ((betweenSlashes s.toList).map String.ofList).filter fun p => p != "" && p != "."

/-- The **text of a path**; a path that leads nowhere is a point. -/
def toText (p : Path) : String :=
  if p.start == .here && p.parts.isEmpty then "." else p.start.toText ++ "/".intercalate p.parts

/-- `q` seen from `p`; a path from the root is the same from everywhere. -/
def join (p q : Path) : Path :=
  if q.start == .here then { p with parts := p.parts ++ q.parts } else q

/-- The path without its last name. -/
def parent (p : Path) : Path :=
  { p with parts := p.parts.dropLast }

/-- The last name. -/
def name (p : Path) : String :=
  p.parts.getLastD ""

/-- Names with double points resolved against the names before them; at the root they
lead nowhere. -/
def collapse (parts : List String) : List String :=
  -- Nothing comes before the root, so there `dropLast` changes nothing.
  parts.foldl (fun done p => if p == ".." then done.dropLast else done ++ [p]) []

/-- The path from the root, seen from `here`, with **double points resolved by name**. -/
def normal (here p : Path) : Path where
  start := .root
  parts := collapse (here.join p).parts

/-- The user **in whose home a path starts**: a tilde and a name stand in front. The tilde alone is
for whoever runs the program, who has no name here. -/
def homeOwner? (p : Path) : Option String :=
  match p.start, p.parts with
  | .here, first :: _ =>
    match first.toList with
    | '~' :: owner => some (String.ofList owner)
    | _ => none
  | _, _ => none

/-- The text of a home, without slashes at its end. -/
def homeText (home : String) : String :=
  let cs := (home.toList.reverse.dropWhile (· == '/')).reverse
  if cs.isEmpty then "/" else String.ofList cs

/-- A path that starts in a home, seen from there: the part with the tilde (`homeOwner?`) gives way
to the home. -/
def inHome (home : String) (p : Path) : Path :=
  (ofString (homeText home)).join ⟨.here, p.parts.tail⟩

/-- The places, by names from the root on, that a walk along `p` from `here` passes. -/
def places (here p : Path) : List (List String) :=
  let parts := (here.join p).parts
  (List.range parts.length).map fun i => collapse (parts.take (i + 1))

end Path

end DocComment
