import DocComment.Yaml.Node

/-!
# Drafts of values

Between the tree of a document and its value stands a draft. In a draft merges are done: the pairs
that a mapping takes over from others stand in front of its own, so that its own prevail. And a
scalar that has the form of a number or a moment, and is none, shows its fault; the value of a
document exists when its draft has no fault.

- `Draft.ofNode` - the draft of a node.
- `Draft.fault?` - its first fault; `Draft.toValue` - the value, if there is none.
- `reader` - the reader of documents that all this makes.
-/

namespace DocComment.Yaml

open DocComment.Document (Value)

/-- A value on its way: merges are done, and a scalar that stands for none shows its fault. -/
inductive Draft where
  /-- A scalar, or why there is none. -/
  | scalar (s : Except Fault Scalar)
  /-- A list. -/
  | list (items : List Draft)
  /-- Keys and values, in the order in which they are written. -/
  | mapping (pairs : List (Draft × Draft))
  /-- A mapping into which something was to be merged that is no mapping. -/
  | broken

namespace Draft

/-- The pairs of a draft that is a `mapping`. -/
def pairs? : Draft → Option (List (Draft × Draft))
  | mapping pairs => some pairs
  | _ => none

/-- The pairs that a draft **brings in when it is merged**: those of a mapping, or those of a list
of mappings, of which the earlier ones prevail and so come last. -/
def merged? : Draft → Option (List (Draft × Draft))
  | mapping pairs => some pairs
  | list items => (items.mapM pairs?).map fun all => all.reverse.flatten
  | _ => none

/-- What a key and its value add to a mapping: pairs that are merged into it, or a pair of its
own. -/
inductive Addition where
  /-- Merged pairs, if the value has any to offer. -/
  | merge (pairs : Option (List (Draft × Draft)))
  /-- A pair of its own. -/
  | own (key value : Draft)

/-- The `Addition` that a key and the draft of its value make to a mapping. -/
def addition (key : Node) (keyDraft value : Draft) : Addition :=
  match key with
  | .scalar text true =>
    -- Only a plain key can be one of the two marks.
    if text == Scalar.mergeMark then .merge value.merged?
    else if text == Scalar.defaultMark then .own (.scalar (.ok (.text text))) value
    else .own keyDraft value
  | _ => .own keyDraft value

/-- The pairs that additions merge, if all of them can be merged. -/
def mergedPairs? : List Addition → Option (List (Draft × Draft))
  | [] => some []
  | .merge pairs :: more => do return (← pairs) ++ (← mergedPairs? more)
  | .own _ _ :: more => mergedPairs? more

/-- The pairs of a mapping's own. -/
def ownPairs : List Addition → List (Draft × Draft)
  | [] => []
  | .merge _ :: more => ownPairs more
  | .own key value :: more => (key, value) :: ownPairs more

/-- The mapping that additions make: `mergedPairs?` come first, so that its own prevail. -/
def assemble (additions : List Addition) : Draft :=
  match mergedPairs? additions with
  | some pairs => .mapping (pairs ++ ownPairs additions)
  | none => .broken

mutual

/-- The **draft of a node**. -/
def ofNode : Node → Draft
  | .scalar text plain => .scalar (if plain then Scalar.ofPlain text else .ok (.text text))
  | .sequence items => .list (ofNodes items)
  | .mapping pairs => assemble (ofPairs pairs)

/-- The drafts of items, each by `ofNode`. -/
def ofNodes : List Node → List Draft
  | [] => []
  | n :: more => ofNode n :: ofNodes more

/-- What pairs add to a mapping, each by its `addition`. -/
def ofPairs : List (Node × Node) → List Addition
  | [] => []
  | (key, value) :: more => addition key (ofNode key) (ofNode value) :: ofPairs more

end

/-! ### Faults by level

A document is worked through level by level: the scalars of a list or mapping at once, in order, and
the lists and mappings in it afterwards. So of several faults the one on the outermost level is
found first. -/

/-- Faults by level, those of `b` behind those of `a`. -/
def joinLevels (a b : List (List Fault)) : List (List Fault) :=
  match a, b with
  | [], b => b
  | a, [] => a
  | fs :: more, gs :: rest => (fs ++ gs) :: joinLevels more rest

/-- The fault of a key: a list or a mapping is none. -/
def keyFaults : Draft → List Fault
  | scalar (.error fault) => [fault]
  | scalar (.ok _) => []
  | _ => [.malformed]

mutual

/-- The **faults of a draft by level**. -/
def faultLevels : Draft → List (List Fault)
  | scalar (.error fault) => [[fault]]
  | scalar (.ok _) => []
  | list items => [] :: itemLevels items
  | mapping pairs => [] :: pairLevels pairs
  -- A merge that cannot be done is met with the mappings, a level further in.
  | broken => [[], [.malformed]]

/-- The faults of items by level. -/
def itemLevels : List Draft → List (List Fault)
  | [] => []
  | item :: more => joinLevels (faultLevels item) (itemLevels more)

/-- The faults of pairs by level. -/
def pairLevels : List (Draft × Draft) → List (List Fault)
  | [] => []
  | (key, value) :: more =>
    joinLevels [keyFaults key] (joinLevels (faultLevels value) (pairLevels more))

end

/-- The first fault of a draft, by its `faultLevels`. -/
def fault? (d : Draft) : Option Fault :=
  d.faultLevels.flatten.head?

/-- The scalar of a draft without faults that is a key. -/
def toKey : Draft → Scalar
  | scalar (.ok s) => s
  | _ => .null

/-- Entries with `value` written at `key`: a key that is there keeps its place. -/
def put (key : Scalar) (value : Value) : List (Scalar × Value) → List (Scalar × Value)
  | [] => [(key, value)]
  | (k, v) :: more => if k.sameKey key then (k, value) :: more else (k, v) :: put key value more

/-- The entries that pairs make, written one after another. -/
def entries (pairs : List (Scalar × Value)) : List (Document.Scalar × Value) :=
  -- Keys are compared as scalars, and only then become those of the document.
  (pairs.foldl (fun m e => put e.1 e.2 m) []).map fun e => (e.1.toDocument, e.2)

mutual

/-- The **value of a draft** without faults. -/
def toValue : Draft → Value
  | scalar (.ok s) => .scalar s.toDocument
  -- With a fault the value does not matter: `valueOf` does not look at it.
  | scalar (.error _) => .scalar .null
  | list items => .list (itemValues items)
  | mapping pairs => .mapping (entries (pairValues pairs))
  | broken => .mapping []

/-- The values of items. -/
def itemValues : List Draft → List Value
  | [] => []
  | item :: more => toValue item :: itemValues more

/-- The keys and values of pairs. -/
def pairValues : List (Draft × Draft) → List (Scalar × Value)
  | [] => []
  | (key, value) :: more => (key.toKey, toValue value) :: pairValues more

end

end Draft

/-- The value of a node, or the first fault of its `Draft`. -/
def valueOf (n : Node) : Except Fault Value :=
  let draft := Draft.ofNode n
  match draft.fault? with
  | some fault => .error fault
  | none => .ok draft.toValue

/-- A `Fault` as settings see it: a malformed document, or something else. -/
def Fault.toDocument : Fault → Document.Fault
  | .malformed => .malformed Fault.malformed.message
  | fault => .raised fault.message

/-- The **reader of documents**: a scan (`Scan.ofDocument`), its tree (`Node.ofScan`), and the value
of that (`valueOf`). -/
def reader : Document.Reader := fun document =>
  (do valueOf (← Node.ofScan (Scan.ofDocument document.toList))).mapError Fault.toDocument

end DocComment.Yaml
