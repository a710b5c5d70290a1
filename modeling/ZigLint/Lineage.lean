import ZigLint.Syntax.Tree

namespace ZigLint

/-!
# Lineage

The parent and the children of every node that can be reached from the root,
found breadth first. A child keeps the first parent that claims it, and edges to
the root or out of range are dropped, so the table is a tree whatever child
lists it was built from.
-/

/-- Parents and children of the nodes of a tree. -/
structure Lineage where
  parents : Array (Option NodeIndex)
  childLists : Array (List NodeIndex)
  deriving Repr

namespace Lineage

/-- A table of `count` nodes without any edge. -/
def bare (count : Nat) : Lineage where
  parents := Array.replicate count none
  childLists := Array.replicate count []

/-- Number of nodes in the table. -/
def size (lineage : Lineage) : Nat :=
  lineage.parents.size

/-- The table covers no node. -/
def isEmpty (lineage : Lineage) : Bool :=
  lineage.parents.isEmpty

/-- Parent of a node; `none` for the root and for unreachable nodes. -/
def parent? (lineage : Lineage) (node : NodeIndex) : Option NodeIndex :=
  (lineage.parents[node.val]?).join

/-- Children of a node, in the order in which they were claimed. -/
def children (lineage : Lineage) (node : NodeIndex) : List NodeIndex :=
  (lineage.childLists[node.val]?).getD []

/-- Parents of a node, nearest first, up to the root. -/
def ancestors (lineage : Lineage) (node : NodeIndex) : List NodeIndex :=
  parentChain lineage.parent? lineage.size node

/-- A node that can still be claimed: in range, not the root and without a parent. -/
def isFree (lineage : Lineage) (node : NodeIndex) : Bool :=
  node.val < lineage.size && node != .root && (lineage.parent? node).isNone

/-- Give the free ones of `candidates` the parent `parent`, and answer which they were. -/
def adopt (lineage : Lineage) (parent : NodeIndex) :
    List NodeIndex → Lineage × List NodeIndex
  | [] => (lineage, [])
  | child :: rest =>
      if lineage.isFree child then
        let parents := lineage.parents.setIfInBounds child.val (some parent)
        let (lineage, adopted) := { lineage with parents }.adopt parent rest
        (lineage, child :: adopted)
      else
        lineage.adopt parent rest

/-- Let `parent` claim the free ones of `candidates` as its children, and answer them. -/
def claim (lineage : Lineage) (parent : NodeIndex) (candidates : List NodeIndex) :
    Lineage × List NodeIndex :=
  let (lineage, claimed) := lineage.adopt parent candidates
  let childLists := lineage.childLists.modify parent.val (· ++ claimed)
  ({ lineage with childLists }, claimed)

/-- Let the nodes of one generation claim their children in turn: the next generation. -/
def claimAll (childrenOf : NodeIndex → List NodeIndex) (lineage : Lineage) :
    List NodeIndex → Lineage × List NodeIndex
  | [] => (lineage, [])
  | node :: rest =>
      let (lineage, claimed) := lineage.claim node (childrenOf node)
      let (lineage, later) := lineage.claimAll childrenOf rest
      (lineage, claimed ++ later)

/--
Go on from one generation to the next, at most `rounds` times.

A node belongs to a generation when it has been claimed, so to one at most: as
many rounds as there are nodes always lead to an empty generation.
-/
def search (childrenOf : NodeIndex → List NodeIndex) :
    (rounds : Nat) → Lineage → List NodeIndex → Lineage
  | 0, lineage, _ => lineage
  | _, lineage, [] => lineage
  | rounds + 1, lineage, generation =>
      let (lineage, next) := lineage.claimAll childrenOf generation
      search childrenOf rounds lineage next

/-- The lineage of `count` nodes with the given child lists. -/
def ofChildren (count : Nat) (childrenOf : NodeIndex → List NodeIndex) : Lineage :=
  if count = 0 then
    bare 0
  else
    search childrenOf count (bare count) [.root]

/-- The lineage of a syntax tree. -/
def ofTree (tree : SyntaxTree) : Lineage :=
  ofChildren tree.nodes.size tree.children

/-- The children that `(parent, child)` edges give to each of `count` nodes, in their order. -/
def childrenOfEdges (count : Nat) (edges : List (NodeIndex × NodeIndex)) :
    Array (List NodeIndex) :=
  edges.foldr
    (fun (parent, child) table => table.modify parent.val (child :: ·))
    (Array.replicate count [])

/-- The lineage of `count` nodes joined by `(parent, child)` edges. -/
def ofEdges (count : Nat) (edges : List (NodeIndex × NodeIndex)) : Lineage :=
  let table := childrenOfEdges count edges
  ofChildren count fun node => table.getD node.val []

end Lineage

end ZigLint
