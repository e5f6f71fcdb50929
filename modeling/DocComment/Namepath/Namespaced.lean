import DocComment.Namepath.Cut

/-!
# Names with a name space

Symbols of some kinds live in a name space of their own: the last member of their path carries the
kind in front, as in `module:foo`. Names of such kinds are quoted when they hold characters that a
path could not hold plainly.

- `Namepath.withNamespace` - a path whose last member carries a name space.
- `Namepath.quoteUnsafe` - a name quoted when it has to be.
-/

namespace DocComment.Namepath

open DocComment.Text

/-- Whether `cs` is nothing, or a single line feed. -/
def atEnd : List Char → Bool
  | [] => true
  | ['\n'] => true
  | _ => false

/-- Whether a name already **carries a scheme**: letters of the plain alphabet, a colon, and at
least one more character, on one line. -/
def carriesScheme (name : List Char) : Bool :=
  let letters := name.takeWhile Char.isAlpha
  match letters, name.drop letters.length with
  | _ :: _, ':' :: rest =>
    let line := rest.takeWhile (· != '\n')
    !line.isEmpty && atEnd (rest.drop line.length)
  | _, _ => false

/-- Recognises `name` at the end of the text (`atEnd`), or before a line feed that ends it. -/
def nameAtEnd (name : List Char) : Recogniser := fun _ cs =>
  if name.isPrefixOf cs && atEnd (cs.drop name.length) then name.length else 0

/-- A path whose **last member carries the name space** `space`; a last member that is empty or
carries a scheme already is left alone. -/
def withNamespace (longname space : String) : String :=
  let parts := cut longname
  let name := parts.name.toList
  -- Either way the path comes out in its normal form.
  if name.isEmpty || carriesScheme name then parts.longname
  else
    String.ofList
      (substitute (nameAtEnd name) (fun s => space.toList ++ ':' :: s) parts.longname.toList)

/-- Whether a name may hold `c` without quotes. -/
def isSafe (c : Char) : Bool :=
  c.isAlphanum || c == '$' || c == '_' || c == '/'

/-- Whether `c` may stand in a scheme before a quoted name: a letter in either case, an underscore,
or one of the signs from the dollar sign to the slash. Four letters outside the plain alphabet
count, because they differ only in case from plain ones. -/
def isSchemeChar (c : Char) : Bool :=
  c.isAlpha || c == '_' || ('$' <= c && c <= '/')
    || ['\u0130', '\u0131', '\u017f', '\u212a'].contains c

/-- Whether a name starts with a scheme (`isSchemeChar`), a colon and a double quote. -/
def startsQuotedScheme (name : List Char) : Bool :=
  let scheme := name.takeWhile isSchemeChar
  match scheme, name.drop scheme.length with
  | _ :: _, ':' :: c :: _ => c == doubleQuote
  | _, _ => false

/-- A name **in quotes** when it holds a character that needs them (`isSafe`) and is not quoted
behind a scheme (`startsQuotedScheme`). -/
def quoteUnsafe (name : String) : String :=
  let cs := name.toList
  if cs.any (fun c => !isSafe c) && !startsQuotedScheme cs then
    String.ofList (doubleQuote :: cs ++ [doubleQuote])
  else name

end DocComment.Namepath
