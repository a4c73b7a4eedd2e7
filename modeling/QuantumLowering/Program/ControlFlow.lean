import QuantumLowering.Program.Function
/-!
# The control flow of a function

Blocks are nodes, named by their position in the function. Where several
blocks share a name, the name stands for the last of them, both where
control leaves and where it arrives. `Function.reversePostOrder` lists
the positions so that, away from cycles, a block comes after the blocks
that lead to it.
-/


namespace QuantumLowering

namespace Function

/-- The position that a block name stands for. -/
def position? (f : Function) (id : BlockId) : Option Nat :=
  (f.blocks.zipIdx.reverse.find? fun e => e.1.id = id).map Prod.snd

/-- The edges between positions, block by block in branch order. A branch
to an unknown block makes no edge. -/
def edges (f : Function) : List (Nat × Nat) :=
  f.blocks.flatMap fun b =>
    match f.position? b.id with
    | some source => (b.successors.filterMap f.position?).map fun target => (source, target)
    | none => []

end Function

/-! ## Depth first search -/

namespace ControlFlow

/-- A depth first search: the nodes met so far, and the finished ones,
the latest first. -/
structure Search where
  /-- The nodes met so far. -/
  met : List Nat
  /-- The finished nodes, the latest first. -/
  finished : List Nat

/-- The targets of the edges from a node, in the order of the edges. -/
def targets (edges : List (Nat × Nat)) (node : Nat) : List Nat :=
  (edges.filter fun e => e.1 = node).map Prod.snd

/-- Searches from a node: meets it, searches from its targets in order and
finishes it. A path meets each node once, so as much fuel as there are
nodes is enough. -/
def search (edges : List (Nat × Nat)) : Nat → Search → Nat → Search
  | 0, s, _ => s
  | fuel + 1, s, node =>
    if node ∈ s.met then s
    else
      let s := (targets edges node).foldl (search edges fuel) { s with met := node :: s.met }
      { s with finished := node :: s.finished }

end ControlFlow

namespace Function

/-- The positions that control can reach, in reverse post-order of a depth
first search from the first block. -/
def reachableOrder (f : Function) : List Nat :=
  match f.blocks.head?.bind fun b => f.position? b.id with
  | some entry => (ControlFlow.search f.edges f.blocks.length ⟨[], []⟩ entry).finished
  | none => []

/-- Every position once: the reachable ones in reverse post-order, then the
others in layout order. -/
def reversePostOrder (f : Function) : List Nat :=
  let reached := f.reachableOrder
  reached ++ (List.range f.blocks.length).filter fun i => i ∉ reached

end Function

end QuantumLowering
