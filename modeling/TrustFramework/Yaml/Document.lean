import TrustFramework.Yaml.Binary
import TrustFramework.Yaml.Tree

/-!
# Documents

A YAML text holds one document or none. Its tree becomes a node: scalars become what they
denote, of two equal keys the last one counts at the place of the first, and the entries
that are merged into a mapping stand before its own.

* `Tree.toNode` — what a tree denotes.
* `readDocument` — the node a text denotes.
-/

namespace TrustFramework
namespace Yaml

/-! ### Keys -/

/-- The whole number a key equals, if it equals one. Truth values count as numbers. -/
def wholeKey? : Node → Option Int
  | .bool b => some (if b then 1 else 0)
  | .int n => some n
  | .real x => x.toInt?
  | _ => none

/-- Whether two keys are the same. -/
def sameKey (a b : Node) : Bool :=
  match wholeKey? a, wholeKey? b with
  | some n, some m => n = m
  | none, none =>
    match a, b with
    | .null, .null => true
    | .real x, .real y => x.same y
    | .text s, .text t => s = t
    | .other s _, .other t _ => s = t
    | _, _ => false
  | _, _ => false

/-- Entries with one more, which takes the place of one with the same key. -/
def putEntry (entries : List (Node × Node)) (key value : Node) : List (Node × Node) :=
  if entries.any fun e => sameKey e.1 key then
    entries.map fun e => if sameKey e.1 key then (e.1, value) else e
  else entries ++ [(key, value)]

/-- Entries in the order of their keys' first places, with the last values. -/
def distinctEntries (entries : List (Node × Node)) : List (Node × Node) :=
  entries.foldl (fun es (key, value) => putEntry es key value) []

/-! ### Nodes of trees -/

/-- What a text denotes as a scalar of a kind. -/
def scalarNode (kind : Kind) (s : String) : Except Defect Node :=
  match kind with
  | .null => .ok .null
  | .bool => (truthOf s).map .bool
  | .int => (wholeOf s).map .int
  | .real => (realOf s).map .real
  | .text => .ok (.text s)
  | .date => dateOf s
  | .binary => (readBase64 s).map fun bytes => .other (bytesLiteral bytes) (bytesLiteral bytes)
  | _ => .error .malformed

/-- A set of keys as a node. -/
def setNode (keys : List Node) : Node :=
  let literal := if keys.isEmpty then "set()" else
    "\x7b" ++ Value.commaJoined (keys.map Node.literal) ++ "\x7d"
  .other literal literal

/-- A pair of nodes as a node. -/
def pairNode (a b : Node) : Node :=
  let literal := "(" ++ a.literal ++ ", " ++ b.literal ++ ")"
  .other literal literal

/-- A collection within itself as a node. -/
def circleNode (isMapping : Bool) : Node :=
  let literal := if isMapping then "\x7b...\x7d" else "[...]"
  .other literal literal

namespace Tree

/-- The kind of a node, if it is a scalar. -/
def scalarKind? : Tree → Option Kind
  | scalar kind _ => some kind
  | _ => none

/-- The text of a scalar. A mapping has the text of the entry that stands for it. -/
def text? : Tree → Option String
  | scalar _ s => some s
  | mapping _ entries => standIn? entries
  | _ => none
where
  /-- The text of the first entry that stands for its mapping. -/
  standIn? : List (Tree × Tree) → Option String
    | [] => none
    | (key, value) :: rest =>
      if key.scalarKind? = some .standIn then text? value else standIn? rest

mutual
/-- What a tree denotes. -/
def toNode : Tree → Except Defect Node
  | scalar kind s => scalarNode kind s
  | sequence .list items => do pure (.list (← toNodes items))
  | sequence .pairs items => do pure (.list (← toPairs items))
  | sequence _ _ => .error .malformed
  | mapping kind entries =>
    match kind with
    | .mapping => do
      let (merged, own) ← toEntries entries
      pure (.mapping (distinctEntries (merged ++ own)))
    | .set => do
      let (merged, own) ← toEntries entries
      pure (setNode ((distinctEntries (merged ++ own)).map Prod.fst))
    | _ =>
      match (mapping kind entries).text? with
      | some s => scalarNode kind s
      | none => .error .malformed
  | circle isMapping => .ok (circleNode isMapping)

/-- What trees denote. -/
def toNodes : List Tree → Except Defect (List Node)
  | [] => .ok []
  | t :: rest => do pure ((← toNode t) :: (← toNodes rest))

/-- The pairs that mappings of one entry each denote. -/
def toPairs : List Tree → Except Defect (List Node)
  | [] => .ok []
  | mapping _ [(key, value)] :: rest => do
    let pair := pairNode (← toNode key) (← toNode value)
    pure (pair :: (← toPairs rest))
  | _ => .error .malformed

/-- The entries of a mapping: those that are merged into it, and its own. A list or a
mapping is no key. -/
def toEntries : List (Tree × Tree) → Except Defect (List (Node × Node) × List (Node × Node))
  | [] => .ok ([], [])
  | (key, value) :: rest =>
    if key.scalarKind? = some .merge then do
      let first ← toMerged value
      let (merged, own) ← toEntries rest
      pure (first ++ merged, own)
    else do
      let k ← if key.scalarKind? = some .standIn then pure (.text (key.text?.getD ""))
        else toNode key
      if key.scalarKind?.isNone && k.text?.isNone then throw .malformed
      let v ← toNode value
      let (merged, own) ← toEntries rest
      pure (merged, (k, v) :: own)

/-- The entries that are merged: those of a mapping, or those of several, where earlier
ones win. -/
def toMerged : Tree → Except Defect (List (Node × Node))
  | mapping _ entries => do
    let (merged, own) ← toEntries entries
    pure (merged ++ own)
  | sequence _ items => toMergedAll items
  | _ => .error .malformed

/-- The entries of several mappings, those of the last one first. -/
def toMergedAll : List Tree → Except Defect (List (Node × Node))
  | [] => .ok []
  | mapping _ entries :: rest => do
    let (merged, own) ← toEntries entries
    let later ← toMergedAll rest
    pure (later ++ (merged ++ own))
  | _ => .error .malformed
end

end Tree

/-- The node a text denotes; nothing if it holds no document. -/
def readDocument (s : String) : Except Defect Node := do
  match ← Tree.ofTokens (← tokensOf s) with
  | some tree => tree.toNode
  | none => pure .null

end Yaml
end TrustFramework
