import Mathlib.Data.Finset.Basic
import Mathlib.Data.String.Basic
import Membrane.Foundation.Dict
import Membrane.Data.Fragment

/-!
# The index and the fragment graph

A node registers every fragment it stores in an index with three parts (by
payload hash, in order of insertion, and by token span) and in a typed graph
whose neighbours are a hint for eviction.
-/

namespace Membrane
namespace Index

open Foundation Data

/-!
# The interval tree

An AVL tree keyed by the start of the token span, ties broken by the payload
hash, where every node carries the largest end of its subtree.
-/

inductive IntervalNode where
  | none
  | node (fragment : Fragment) (start stop maxEnd : Int) (height : Nat)
      (left right : IntervalNode)

namespace IntervalNode

def height : IntervalNode -> Nat
  | none => 0
  | node _ _ _ _ height _ _ => height

def maxEnd : IntervalNode -> Int
  | none => 0
  | node _ _ _ maxEnd _ _ _ => maxEnd

/-- A node whose height and largest end are recomputed from its children. -/
def update (fragment : Fragment) (start stop : Int) (left right : IntervalNode) :
    IntervalNode :=
  node fragment start stop (max stop (max left.maxEnd right.maxEnd))
    (1 + max left.height right.height) left right

/-- A rotation needs a child on the side it lifts; `rebalance` rotates only
towards the lower side, so the child is there. -/
def rotateRight : IntervalNode -> IntervalNode
  | node f start stop _ _ (node xf xstart xstop _ _ xleft xright) right =>
    update xf xstart xstop xleft (update f start stop xright right)
  | t => t

def rotateLeft : IntervalNode -> IntervalNode
  | node f start stop _ _ left (node yf ystart ystop _ _ yleft yright) =>
    update yf ystart ystop (update f start stop left yleft) yright
  | t => t

def balanceFactor : IntervalNode -> Int
  | none => 0
  | node _ _ _ _ _ left right => (left.height : Int) - right.height

def rebalance : IntervalNode -> IntervalNode
  | none => none
  | node f start stop maxEnd height left right =>
    if 1 < (node f start stop maxEnd height left right).balanceFactor then
      if left.balanceFactor < 0 then
        rotateRight (node f start stop maxEnd height left.rotateLeft right)
      else rotateRight (node f start stop maxEnd height left right)
    else if (node f start stop maxEnd height left right).balanceFactor < -1 then
      if 0 < right.balanceFactor then
        rotateLeft (node f start stop maxEnd height left right.rotateRight)
      else rotateLeft (node f start stop maxEnd height left right)
    else node f start stop maxEnd height left right

def insertNode (fragment : Fragment) : IntervalNode -> IntervalNode
  | none =>
    node fragment fragment.identity.tokenSpan.1 fragment.identity.tokenSpan.2
      fragment.identity.tokenSpan.2 1 none none
  | node f start stop _ _ left right =>
    if fragment.identity.tokenSpan.1 < start ∨
        (fragment.identity.tokenSpan.1 = start ∧
          fragment.payloadHash < f.payloadHash) then
      rebalance (update f start stop (insertNode fragment left) right)
    else rebalance (update f start stop left (insertNode fragment right))

end IntervalNode

/-- The node map of the source is only read for the start of a node's span. -/
structure Tree where
  root : IntervalNode
  nodeMap : Dict String Int

def Tree.insert (t : Tree) (f : Fragment) : Tree :=
  { root := t.root.insertNode f
    nodeMap := t.nodeMap.set f.payloadHash f.identity.tokenSpan.1 }

/-!
# The index
-/

structure IndexEntry where
  fragment : Fragment
  locations : Finset String

structure Exacts where
  entries : Dict String IndexEntry

def Exacts.insert (x : Exacts) (f : Fragment) (locations : Finset String) : Exacts :=
  { entries := x.entries.set f.payloadHash { fragment := f, locations := locations } }

structure Semantics where
  fragments : List Fragment
  norms : Dict String ℚ

def Semantics.insert (s : Semantics) (f : Fragment) : Semantics :=
  { fragments := s.fragments ++ [f], norms := s.norms.set f.payloadHash 1 }

structure IndexSystem where
  exacts : Exacts
  semantic : Semantics
  positional : Tree

namespace IndexSystem

def create : IndexSystem :=
  { exacts := { entries := Dict.empty }
    semantic := { fragments := [], norms := Dict.empty }
    positional := { root := IntervalNode.none, nodeMap := Dict.empty } }

def insert (x : IndexSystem) (f : Fragment) (locations : Finset String) : IndexSystem :=
  { exacts := x.exacts.insert f locations
    semantic := x.semantic.insert f
    positional := x.positional.insert f }

end IndexSystem

/-!
# The fragment graph

The targets of a node are kept in a list without repetition.  The order in which
the source iterates over its sets is not specified; the model fixes one.
-/

structure Graph where
  nodes : Dict String Fragment
  adjacency : Dict String (Dict String (List String))

namespace Graph

def create : Graph :=
  { nodes := Dict.empty, adjacency := Dict.empty }

def addNode (g : Graph) (f : Fragment) : Graph :=
  { nodes := g.nodes.set f.payloadHash f
    adjacency :=
      if f.payloadHash ∈ g.adjacency then g.adjacency
      else g.adjacency.set f.payloadHash Dict.empty }

def neighbors (g : Graph) (contentHash : String) : List String :=
  (g.adjacency.getD contentHash Dict.empty).values.foldl
    (fun result targets => result ∪ targets) []

def evictionNeighbors (g : Graph) (contentHash : String) : List String :=
  g.neighbors contentHash

end Graph

end Index
end Membrane
