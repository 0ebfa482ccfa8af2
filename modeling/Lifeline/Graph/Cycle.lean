/-!
# Cycles in a graph

A directed graph as a list of nodes with their neighbours, and the first cycle that a depth-first
search meets (`Graph.findCycle`). The search keeps the path to the node it is at, innermost first,
and the nodes that it has left for good.
-/

namespace Lifeline

/-- The neighbours of each node, the nodes in order. A node without an entry has none. -/
abbrev Graph := List (String × List String)

namespace Graph

def neighbours (g : Graph) (node : String) : List String := (g.lookup node).getD []

def addEdge (g : Graph) (source target : String) : Graph :=
  if g.any (·.1 == source) then
    g.map fun (node, targets) =>
      if node == source && !targets.contains target then (node, targets ++ [target])
      else (node, targets)
  else g ++ [(source, [target])]

/-- All nodes, those that are only neighbours included. -/
def nodes (g : Graph) : List String := g.flatMap fun (node, targets) => node :: targets

/-- The cycle that an edge from the innermost node of `path` back to `node` closes. -/
def cycleAt (path : List String) (node : String) : List String :=
  (path.takeWhile (· != node) ++ [node]).reverse ++ [node]

/-- Visits `node` below `path`. The result is the cycle found, or the nodes left for good. `fuel`
bounds the length of the path, on which every node stands once. -/
def visit (g : Graph) : (fuel : Nat) → (path left : List String) → (node : String) →
    Except (List String) (List String)
  | 0, _, left, _ => .ok left
  | fuel + 1, path, left, node => do
    let path := node :: path
    let left ← (g.neighbours node).foldlM (fun left next =>
      if path.contains next then .error (cycleAt path next)
      else if left.contains next then .ok left
      else visit g fuel path left next) left
    return node :: left

/-- Visits the nodes that have not been left yet, one after the other. -/
def search (g : Graph) : Except (List String) (List String) :=
  g.foldlM (fun left (node, _) =>
    if left.contains node then .ok left else visit g (g.nodes.length + 1) [] left node) []

/-- The first cycle that the search meets: a path whose last node is its first. -/
def findCycle (g : Graph) : Option (List String) :=
  match g.search with
  | .ok _ => none
  | .error cycle => some cycle

end Graph

end Lifeline
