import Patchbay.Graph.Basic

/-!
The difference of two graphs, by identity: what has to go and what has to come, in an order in which no edge
is ever without its nodes.
-/

namespace Patchbay

inductive GraphDiff where
  | addNode (id : NodeId)
  | removeNode (id : NodeId)
  | addEdge (id : EdgeId)
  | removeEdge (id : EdgeId)
  deriving DecidableEq

namespace Graph

def missingFrom {α β : Type} (d : Dict α) (e : Dict β) : List String :=
  d.keys.filter fun k => !e.contains k

/-- The steps that turn `old` into `new`: edges go first, then nodes go, nodes come, and edges come last;
each group is in the order of identities. -/
def diff (old new : Graph) : List GraphDiff :=
  (missingFrom old.edges new.edges).map .removeEdge ++
    (missingFrom old.nodes new.nodes).map .removeNode ++
    (missingFrom new.nodes old.nodes).map .addNode ++
    (missingFrom new.edges old.edges).map .addEdge

end Graph

end Patchbay
