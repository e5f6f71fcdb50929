import DocComment.Tag.Dictionary

/-!
# The standard tags

The tags that every dictionary starts with: names and kinds, membership and scope, signatures,
relationships, access and annotations.
-/

namespace DocComment.Standard

/-- A tag that names the kind of a symbol, and maybe the symbol itself. -/
def kindTag (title : String) (synonyms : List String) : Definition where
  title := title
  hook := some (.rules [.kindFromTitle, .nameFromValue])
  synonyms := synonyms

/-- A tag for a kind with a name space of its own. -/
def namespaceTag (title : String) (synonyms : List String) : Definition where
  title := title
  hook := some (.rules [.kindFromTitle, .quotedNameFromValue])
  synonyms := synonyms
  hasNamespace := true
  quotesName := true

/-- A tag that takes no text and stands for itself. -/
def bareTag (title : String) (rule : Rule) : Definition where
  title := title
  hook := some (.rules [rule])
  refusesValue := true

/-- A tag that is nothing without its text. -/
def valueTag (title : String) (rule : Rule) (synonyms : List String) : Definition where
  title := title
  hook := some (.rules [rule])
  synonyms := synonyms
  needsValue := true

/-- Tags that write the field of the same name, without a `Hook` of their own. -/
def direct : List Definition :=
  [{ title := "name", needsValue := true },
   { title := "kind", needsValue := true },
   { title := "description", synonyms := ["desc"] },
   { title := "scope", needsValue := true }]

/-- Tags for membership and scope. -/
def membership : List Definition :=
  [valueTag "memberof" .memberofFromValue [],
   bareTag "global" .makeGlobal,
   bareTag "static" .scopeFromTitle,
   bareTag "inner" .scopeFromTitle,
   bareTag "instance" .scopeFromTitle]

/-- Tags for kinds of symbols: `kindTag`, `namespaceTag`, and two of their own making. -/
def kinds : List Definition :=
  [kindTag "class" ["constructor"],
   kindTag "function" ["func", "method"],
   kindTag "namespace" [],
   kindTag "constant" ["const"],
   { title := "property"
     hook := some (.rules [.kindFromTitle, .nameFromValue, .typeFromValue])
     synonyms := ["prop", "member", "var"]
     canHaveType := true
     canHaveName := true },
   namespaceTag "module" [],
   namespaceTag "event" [],
   namespaceTag "external" ["host"],
   { title := "file"
     hook := some (.rules [.describeFile])
     synonyms := ["fileoverview", "overview"] }]

/-- Tags for signatures. -/
def signatures : List Definition :=
  [{ title := "param"
     hook := some (.rules [.appendValue .params])
     synonyms := ["arg", "argument"]
     canHaveType := true
     canHaveName := true },
   { title := "returns"
     hook := some (.rules [.appendValue .returns])
     synonyms := ["return"]
     canHaveType := true },
   { title := "type"
     hook := some (.rules [.typeFromValue])
     canHaveType := true
     needsValue := true },
   { title := "example"
     hook := some (.rules [.appendValue .examples])
     keepsBlanks := true }]

/-- Tags for relationships between symbols. -/
def relationships : List Definition :=
  [valueTag "augments" .augmentFromValue ["extends"],
   valueTag "borrows" .borrowFromText [],
   valueTag "alias" (.fieldFromValue .otherName) [],
   valueTag "see" (.appendValue .see) [],
   valueTag "requires" (.appendValue .requires) []]

/-- Tags for access. -/
def accesses : List Definition :=
  [bareTag "private" .accessFromTitle,
   bareTag "protected" .accessFromTitle,
   bareTag "public" .accessFromTitle,
   valueTag "access" .accessFromValue []]

/-- Tags for annotations. -/
def annotations : List Definition :=
  [bareTag "ignore" .markIgnored,
   { title := "deprecated", hook := some (.rules [.markDeprecated]) },
   valueTag "since" (.fieldFromValue .since) [],
   valueTag "version" (.fieldFromValue .version) [],
   valueTag "author" (.fieldFromValue .author) []]

/-- The **standard tags** in the order of their definition. -/
def definitions : List Definition :=
  direct ++ membership ++ kinds ++ signatures ++ relationships ++ accesses ++ annotations

end DocComment.Standard

namespace DocComment

/-- The dictionary of the standard tags (`Standard.definitions`) alone. -/
def Dictionary.standard : Dictionary :=
  Dictionary.empty.defineAll Standard.definitions

end DocComment
