import DocComment.Yaml.Token

/-!
# Nodes of a settings document

The tokens of a document make a tree of scalars, sequences and mappings. A missing key, value or
item is an empty plain scalar.

The tree is read from the first token on, and reading stops at the first token that does not fit. So
a scan that met a fault does harm only if reading gets as far as that: a token that does not fit
comes first.

- `Node` - the tree.
- `Node.ofTokens` - the tree that tokens make, or the tokens from the first one on that does not
  fit.
- `Node.ofScan` - the tree of a document, or what is wrong with it.
-/

namespace DocComment.Yaml

/-- A part of a document. -/
inductive Node where
  /-- A scalar, plain or quoted. -/
  | scalar (text : String) (plain : Bool)
  /-- A list of items. -/
  | sequence (items : List Node)
  /-- Keys and values. -/
  | mapping (pairs : List (Node × Node))
  deriving Repr

namespace Node

instance : Inhabited Node := ⟨.scalar "" true⟩

/-- Where reading stops: the tokens **from the first one on that does not fit**. They are none where
one more token is needed and all are used up. -/
abbrev Misfit := List Token

/-- What stands for a part that is missing: an empty plain scalar. -/
def missing : Node := .scalar "" true

/-- Whether the next token is one of `stops`. -/
def stopsAt (stops : List Token) (ts : List Token) : Bool :=
  match ts with
  | t :: _ => stops.contains t
  | [] => false

/-- A node, or the `missing` one if the next token is one of `stops`. -/
def orMissing (stops : List Token) (node : List Token → Except Misfit (Node × List Token))
    (ts : List Token) : Except Misfit (Node × List Token) :=
  if stopsAt stops ts then .ok (missing, ts) else node ts

/-- A value behind its colon, or the `missing` one. -/
def valueOrMissing (stops : List Token) (node : List Token → Except Misfit (Node × List Token))
    (ts : List Token) : Except Misfit (Node × List Token) :=
  match ts with
  | .value :: rest => orMissing stops node rest
  | _ => .ok (missing, ts)

/-- A key and its value; the mark of the key is passed already. -/
def pair (keyStops valueStops : List Token) (node : List Token → Except Misfit (Node × List Token))
    (ts : List Token) : Except Misfit ((Node × Node) × List Token) := do
  let (key, ts) ← orMissing keyStops node ts
  let (value, ts) ← valueOrMissing valueStops node ts
  return ((key, value), ts)

mutual

/-- A node in a block; a sequence without an indent of its own may stand there if `indentless`. -/
def blockNode : Nat → Bool → List Token → Except Misfit (Node × List Token)
  -- The fuel is enough for every node that tokens can make: see `ofTokens`.
  | 0, _, ts => .error ts
  | fuel + 1, indentless, ts =>
    match ts with
    | .sequenceStart :: rest => (blockItems fuel rest).map fun r => (.sequence r.1, r.2)
    | .mappingStart :: rest => (blockPairs fuel rest).map fun r => (.mapping r.1, r.2)
    | .blockEntry :: _ =>
      -- Dashes in the column of the key: no block was opened for them.
      if indentless then (indentlessItems fuel ts).map fun r => (.sequence r.1, r.2) else .error ts
    | _ => flowNode fuel ts

/-- A scalar or a bracketed collection. -/
def flowNode : Nat → List Token → Except Misfit (Node × List Token)
  | 0, ts => .error ts
  | fuel + 1, ts =>
    match ts with
    | .scalar text plain :: rest => .ok (.scalar text plain, rest)
    | .flowSequenceStart :: rest => (flowItems fuel true rest).map fun r => (.sequence r.1, r.2)
    | .flowMappingStart :: rest => (flowPairs fuel true rest).map fun r => (.mapping r.1, r.2)
    | _ => .error ts

/-- The items of a block, up to its `Token.blockEnd`. -/
def blockItems : Nat → List Token → Except Misfit (List Node × List Token)
  | 0, ts => .error ts
  | fuel + 1, ts =>
    match ts with
    | .blockEntry :: rest => do
      let (item, rest) ← orMissing [.blockEntry, .blockEnd] (blockNode fuel false) rest
      let (more, rest) ← blockItems fuel rest
      return (item :: more, rest)
    | .blockEnd :: rest => .ok ([], rest)
    | _ => .error ts

/-- The items of a sequence that stands in the column of its key. -/
def indentlessItems : Nat → List Token → Except Misfit (List Node × List Token)
  | 0, ts => .error ts
  | fuel + 1, ts =>
    match ts with
    | .blockEntry :: rest => do
      let (item, rest) ←
        orMissing [.blockEntry, .key, .value, .blockEnd] (blockNode fuel false) rest
      let (more, rest) ← indentlessItems fuel rest
      return (item :: more, rest)
    | _ => .ok ([], ts)

/-- The keys and values of a block, each a `pair`, up to its `Token.blockEnd`. -/
def blockPairs : Nat → List Token → Except Misfit (List (Node × Node) × List Token)
  | 0, ts => .error ts
  | fuel + 1, ts =>
    match ts with
    | .key :: rest => do
      let stops := [Token.key, .value, .blockEnd]
      let (entry, rest) ← pair stops stops (blockNode fuel true) rest
      let (more, rest) ← blockPairs fuel rest
      return (entry :: more, rest)
    | .blockEnd :: rest => .ok ([], rest)
    | _ => .error ts

/-- The items between brackets; a key among them makes a mapping of its own. Before every item but
the `first` a comma must stand. -/
def flowItems : Nat → Bool → List Token → Except Misfit (List Node × List Token)
  | 0, _, ts => .error ts
  | fuel + 1, first, ts =>
    match first, ts with
    | _, .flowSequenceEnd :: rest => .ok ([], rest)
    -- A comma may stand behind the last item.
    | false, .flowEntry :: .flowSequenceEnd :: rest => .ok ([], rest)
    | false, .flowEntry :: rest => flowItem fuel rest
    | false, _ => .error ts
    | true, _ => flowItem fuel ts

/-- An item between brackets and those behind it. -/
def flowItem : Nat → List Token → Except Misfit (List Node × List Token)
  | 0, ts => .error ts
  | fuel + 1, ts =>
    match ts with
    | .key :: rest => do
      let (entry, rest) ←
        pair [.value, .flowEntry, .flowSequenceEnd] [.flowEntry, .flowSequenceEnd] (flowNode fuel)
          rest
      let (more, rest) ← flowItems fuel false rest
      return (.mapping [entry] :: more, rest)
    | _ => do
      let (item, rest) ← flowNode fuel ts
      let (more, rest) ← flowItems fuel false rest
      return (item :: more, rest)

/-- The keys and values between braces, like `flowItems`. -/
def flowPairs : Nat → Bool → List Token → Except Misfit (List (Node × Node) × List Token)
  | 0, _, ts => .error ts
  | fuel + 1, first, ts =>
    match first, ts with
    | _, .flowMappingEnd :: rest => .ok ([], rest)
    | false, .flowEntry :: .flowMappingEnd :: rest => .ok ([], rest)
    | false, .flowEntry :: rest => flowPair fuel rest
    | false, _ => .error ts
    | true, _ => flowPair fuel ts

/-- A key between braces with its value, and those behind it; what is not marked as a key has no
value. -/
def flowPair : Nat → List Token → Except Misfit (List (Node × Node) × List Token)
  | 0, ts => .error ts
  | fuel + 1, ts =>
    match ts with
    | .key :: rest => do
      let (entry, rest) ←
        pair [.value, .flowEntry, .flowMappingEnd] [.flowEntry, .flowMappingEnd] (flowNode fuel)
          rest
      let (more, rest) ← flowPairs fuel false rest
      return (entry :: more, rest)
    | _ => do
      let (key, rest) ← flowNode fuel ts
      let (more, rest) ← flowPairs fuel false rest
      return ((key, missing) :: more, rest)

end

/-- The tokens without document ends at their front. -/
def dropEnds : List Token → List Token
  | .documentEnd :: rest => dropEnds rest
  | ts => ts

/-- The **tree that tokens make**. There must be at most one document; without any the tree is a
missing part. -/
def ofTokens (ts : List Token) : Except Misfit Node := do
  -- Between two tokens taken there are at most four calls.
  let node := blockNode (4 * ts.length + 4) false
  let (root, rest) ←
    match ts with
    | [] => .ok (missing, [])
    | .documentStart :: rest =>
      if rest.isEmpty then .ok (missing, [])
      else orMissing [.documentStart, .documentEnd] node rest
    | _ => node ts
  match dropEnds rest with
  | [] => return root
  | rest => throw rest

/-- The **tree of a document**, or what is wrong with it: a token that does not fit (`Misfit`), or
else the fault that ended the scan. -/
def ofScan (scan : Scan) : Except Fault Node :=
  match ofTokens scan.tokens, scan.fault with
  | .error (_ :: _), _ => .error .malformed
  | _, some fault => .error fault
  | .error [], none => .error .malformed
  | .ok root, none => .ok root

end Node

end DocComment.Yaml
