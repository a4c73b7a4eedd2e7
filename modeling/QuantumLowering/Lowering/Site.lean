import QuantumLowering.Program.Basic
/-!
# Sites

A site is the place of an instruction in a function. Lowering decides at
each site what becomes of the instruction, in an order in which values
are computed before they are used, away from cycles.
-/


namespace QuantumLowering

/-- The place of an instruction in a function. -/
structure Site where
  /-- The position of its block. -/
  block : Nat
  /-- Its position in the block. -/
  index : Nat
deriving DecidableEq

/-- The instructions of the block at a position, with their sites. -/
def Block.located (b : Block) (position : Nat) : List (Site × Instruction) :=
  b.instructions.zipIdx.map fun e => (⟨position, e.2⟩, e.1)

namespace Function

/-- The instructions in the order of the blocks, with their sites. -/
def located (f : Function) : List (Site × Instruction) :=
  f.blocks.zipIdx.flatMap fun e => e.1.located e.2

/-- The instructions in the order in which lowering visits them: the
blocks in reverse post-order. -/
def visited (f : Function) : List (Site × Instruction) :=
  f.reversePostOrder.flatMap fun position =>
    match f.blocks[position]? with
    | some b => b.located position
    | none => []

/-- The instruction at a site. -/
def instruction? (f : Function) (s : Site) : Option Instruction :=
  (f.blocks[s.block]?).bind fun b => b.instructions[s.index]?

/-- Rebuilds the instructions of every block from those with sites. -/
def mapLocated (g : List (Site × Instruction) → List Instruction) (f : Function) : Function :=
  { f with
    blocks := f.blocks.zipIdx.map fun e => { e.1 with instructions := g (e.1.located e.2) } }

/-- Puts instructions in place of those at their sites. -/
def replaceAt (f : Function) (replacements : List (Site × Instruction)) : Function :=
  f.mapLocated fun l => l.map fun e => (replacements.lookup e.1).getD e.2

/-- Drops the instructions at some sites. -/
def erase (f : Function) (sites : List Site) : Function :=
  f.mapLocated fun l => (l.filter fun e => e.1 ∉ sites).map Prod.snd

end Function

end QuantumLowering
