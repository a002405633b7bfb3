import TrustFramework.Value

/-!
# Graphs of journeys

A graph has nodes, which may lie inside a group node, and edges, which may leave a
node by a named handle.

* `Graph.Node`, `Graph.Edge` — the parts.
* `Graph.addNode` — a new node, renamed if its identifier is taken.
* `Graph.addEdge`, `Graph.connect` — an edge, unless there is one of its identifier.
-/

namespace TrustFramework

/-- What a node of a journey's graph stands for. -/
inductive NodeType where
  | group
  | conditioned
  | start
  | finish
  | comment
  | combinedSignInAndSignUp
  | claimsExchange
  | getClaims
  | plain
  deriving DecidableEq, Repr

namespace NodeType

/-- The name of a type of nodes. -/
def name : NodeType → String
  | group => "Group"
  | conditioned => "Conditioned"
  | start => "Start"
  | finish => "End"
  | comment => "Comment"
  | combinedSignInAndSignUp => "CombinedSignInAndSignUp"
  | claimsExchange => "ClaimsExchangeNode"
  | getClaims => "GetClaimsNode"
  | plain => "default"

/-- All types of nodes. -/
def all : List NodeType :=
  [group, conditioned, start, finish, comment, combinedSignInAndSignUp, claimsExchange,
    getClaims, plain]

/-- The type of nodes of a name. -/
def ofName? (s : String) : Option NodeType := all.find? fun t => t.name = s

end NodeType

namespace Graph

/-- A node. -/
structure Node where
  id : String
  type : NodeType
  data : Fields Value := []
  /-- The group the node lies in. -/
  parent : Option String := none
  deriving Repr

/-- The type of an edge that leaves a node without a condition. -/
def plainEdge : String := "plain"

/-- The type of an edge that leaves a node by a handle. -/
def conditionEdge : String := "condition-edge"

/-- An edge. -/
structure Edge where
  id : String
  source : String
  target : String
  type : String := plainEdge
  /-- The handle of the source that the edge leaves by. -/
  handle : Option String := none
  data : Fields Value := []
  deriving Repr

/-- A node for a report. -/
def Node.toValue (n : Node) : Value :=
  .object
    ([("id", .text n.id), ("type", .text n.type.name), ("data", .object n.data)] ++
      (n.parent.map fun p => ("parentId", Value.text p)).toList)

/-- An edge for a report. -/
def Edge.toValue (e : Edge) : Value :=
  .object
    ([("id", .text e.id), ("source", .text e.source), ("target", .text e.target),
        ("type", .text e.type)] ++
      (e.handle.map fun h => ("sourceHandle", Value.text h)).toList ++
      (if e.data.isEmpty then [] else [("data", .object e.data)]))

end Graph

/-- A graph. -/
structure Graph where
  nodes : List Graph.Node := []
  edges : List Graph.Edge := []
  deriving Repr

namespace Graph

/-- The node of an identifier. -/
def node? (g : Graph) (id : String) : Option Node := g.nodes.find? fun n => n.id = id

/-- The edges that leave a node. -/
def edgesFrom (g : Graph) (id : String) : List Edge := g.edges.filter fun e => e.source = id

/-- The edges that reach a node. -/
def edgesTo (g : Graph) (id : String) : List Edge := g.edges.filter fun e => e.target = id

/-- A node as a graph takes it: with the number of nodes behind its identifier if that
is taken. -/
def admitted (g : Graph) (n : Node) : Node :=
  if (g.node? n.id).isSome then { n with id := n.id ++ "-" ++ toString g.nodes.length } else n

/-- A graph with one more node, and the node as the graph took it. -/
def addNode (g : Graph) (n : Node) : Graph × Node :=
  ({ g with nodes := g.nodes ++ [g.admitted n] }, g.admitted n)

/-- A graph with an edge, and the edge of that identifier that it has then. -/
def addEdge (g : Graph) (e : Edge) : Graph × Edge :=
  match g.edges.find? fun f => f.id = e.id with
  | some existing => (g, existing)
  | none => ({ g with edges := g.edges ++ [e] }, e)

/-- The edge from one node to another, by a handle if one is given. -/
def link (source target : String) : Option String → Edge
  | none => { id := source ++ "->" ++ target, source, target }
  | some handle =>
    { id := source ++ ":" ++ handle ++ "->" ++ target
      source
      target
      type := conditionEdge
      handle := some handle
      data := [("label", .text handle)] }

/-- A graph with an edge between two nodes, and that edge. -/
def connect (g : Graph) (source target : String) (handle : Option String) : Graph × Edge :=
  g.addEdge (link source target handle)

/-- A graph for a report. -/
def toValue (g : Graph) : Value :=
  .object [("nodes", .list (g.nodes.map Node.toValue)),
    ("edges", .list (g.edges.map Edge.toValue))]

end Graph
end TrustFramework
