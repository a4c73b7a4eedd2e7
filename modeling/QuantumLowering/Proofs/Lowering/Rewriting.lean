import QuantumLowering.Lowering.Sweep
import QuantumLowering.Proofs.Lowering.Visit
/-!
# How lowering rewrites a function

Replacing instructions, substituting operands and dropping instructions
are all one kind of change: each instruction becomes another one or goes,
and the operands of the terminators change. `Function.rewrite` is that
change, under which the control flow stays as it is, and
`Lowering.exists_finished` says what the last step of lowering amounts to.
-/


namespace QuantumLowering

/-! ## Changing operands -/

theorem Operation.mapOperands_mapOperands (g h : Operand → Operand) (o : Operation) :
    (o.mapOperands g).mapOperands h = o.mapOperands (h ∘ g) := by
  cases o <;> simp [mapOperands]

theorem Operation.mapOperands_id (o : Operation) : o.mapOperands id = o := by
  cases o <;> simp [mapOperands]

theorem Operation.operands_mapOperands (g : Operand → Operand) (o : Operation) :
    (o.mapOperands g).operands = o.operands.map g := by
  cases o <;> simp [mapOperands, operands]

theorem Operation.mapOperands_eq_copy_iff {g : Operand → Operand} {o : Operation}
    {source : Operand} :
    o.mapOperands g = .copy source ↔ ∃ op, o = .copy op ∧ g op = source := by
  cases o <;> simp [mapOperands]

theorem Operation.mapOperands_eq_phi_iff {g : Operand → Operand} {o : Operation}
    {incoming : List (BlockId × Operand)} :
    o.mapOperands g = .phi incoming ↔
      ∃ l, o = .phi l ∧ (l.map fun e => (e.1, g e.2)) = incoming := by
  cases o <;> simp [mapOperands]

namespace Instruction

@[simp] theorem mapOperands_id (i : Instruction) : i.mapOperands id = i := by
  simp [mapOperands, Operation.mapOperands_id]

@[simp] theorem result_mapOperands (g : Operand → Operand) (i : Instruction) :
    (i.mapOperands g).result = i.result := rfl

@[simp] theorem operands_mapOperands (g : Operand → Operand) (i : Instruction) :
    (i.mapOperands g).operands = i.operands.map g :=
  Operation.operands_mapOperands g i.operation

@[simp] theorem callee?_mapOperands (g : Operand → Operand) (i : Instruction) :
    (i.mapOperands g).callee? = i.callee? := by
  obtain ⟨_, _, o⟩ := i
  cases o <;> rfl

end Instruction

namespace Terminator

theorem mapOperands_mapOperands (g h : Operand → Operand) (t : Terminator) :
    (t.mapOperands g).mapOperands h = t.mapOperands (h ∘ g) := by
  cases t <;> simp [mapOperands]

@[simp] theorem mapOperands_id (t : Terminator) : t.mapOperands id = t := by
  cases t <;> simp [mapOperands]

@[simp] theorem successors_mapOperands (g : Operand → Operand) (t : Terminator) :
    (t.mapOperands g).successors = t.successors := by
  cases t <;> rfl

@[simp] theorem operands_mapOperands (g : Operand → Operand) (t : Terminator) :
    (t.mapOperands g).operands = t.operands.map g := by
  rcases t with _ | _ | _ | _ <;> try rfl
  rename_i value
  cases value <;> rfl

end Terminator

/-! ## The change -/

/-- **The change of a block** at a position: each instruction becomes what
is wanted of it, if anything, and the operands of the terminator change. -/
def Block.rewrite (fate : Site × Instruction → Option Instruction) (σ : Operand → Operand)
    (position : ℕ) (b : Block) : Block :=
  { b with
    instructions := (b.located position).filterMap fate
    terminator := b.terminator.map (Terminator.mapOperands σ) }

/-- **The change of a function.** -/
def Function.rewrite (fate : Site × Instruction → Option Instruction) (σ : Operand → Operand)
    (f : Function) : Function :=
  { f with blocks := f.blocks.zipIdx.map fun e => e.1.rewrite fate σ e.2 }

namespace Block

variable {fate : Site × Instruction → Option Instruction} {σ : Operand → Operand} {k : ℕ}
variable {b : Block}

@[simp] theorem successors_rewrite : (b.rewrite fate σ k).successors = b.successors := by
  unfold successors rewrite
  cases b.terminator with
  | none => rfl
  | some t => exact Terminator.successors_mapOperands σ t

@[simp] theorem exitOperands_rewrite :
    (b.rewrite fate σ k).exitOperands = b.exitOperands.map σ := by
  unfold exitOperands rewrite
  cases b.terminator with
  | none => rfl
  | some t => exact Terminator.operands_mapOperands σ t

/-- A change that drops nothing keeps the sites. -/
theorem located_rewrite {change : Site × Instruction → Instruction} :
    (b.rewrite (fun e => some (change e)) σ k).located k =
      (b.located k).map fun e => (e.1, change e) := by
  refine List.ext_getElem (by simp [located, rewrite]) fun n hn hn' => ?_
  simp [located, rewrite]

/-- Two changes in a row are one if the first drops nothing. -/
theorem rewrite_rewrite {change : Site × Instruction → Instruction} {τ : Operand → Operand} :
    (b.rewrite (fun e => some (change e)) σ k).rewrite fate τ k =
      b.rewrite (fun e => fate (e.1, change e)) (τ ∘ σ) k := by
  unfold rewrite
  congr 1
  · have h : (b.rewrite (fun e => some (change e)) σ k).located k =
        (b.located k).map fun e => (e.1, change e) := located_rewrite
    unfold rewrite at h
    rw [h, List.filterMap_map]
    rfl
  · simp [Function.comp_def, Terminator.mapOperands_mapOperands]

end Block

namespace Function

variable {fate : Site × Instruction → Option Instruction} {σ : Operand → Operand}
variable {f : Function}

theorem getElem?_blocks_rewrite {k : ℕ} :
    (f.rewrite fate σ).blocks[k]? = (f.blocks[k]?).map (Block.rewrite fate σ k) := by
  simp [rewrite, Function.comp_def, List.getElem?_zipIdx]

/-- **A change keeps the control flow.** -/
@[simp] theorem shape_rewrite : (f.rewrite fate σ).shape = f.shape := by
  refine List.ext_getElem? fun k => ?_
  simp only [shape, List.getElem?_map, getElem?_blocks_rewrite, Option.map_map]
  congr 1
  funext b
  rw [Function.comp_apply, Block.successors_rewrite]
  rfl

@[simp] theorem isDeclaration_rewrite : (f.rewrite fate σ).isDeclaration = f.isDeclaration := by
  cases h : f.blocks <;> simp [isDeclaration, rewrite, h]

@[simp] theorem arity_rewrite : (f.rewrite fate σ).arity = f.arity := by
  unfold arity
  rw [isDeclaration_rewrite]
  rfl

theorem locatedAt_rewrite_map_snd {k : ℕ} :
    ((f.rewrite fate σ).locatedAt k).map Prod.snd = (f.locatedAt k).filterMap fate := by
  unfold locatedAt
  rw [getElem?_blocks_rewrite]
  cases f.blocks[k]? with
  | none => rfl
  | some b => simp [Block.rewrite]

/-- What is visited after a change is what became of what was visited
before. -/
theorem visited_rewrite :
    (f.rewrite fate σ).visited.map Prod.snd = f.visited.filterMap fate := by
  rw [visited_eq, visited_eq, List.map_flatMap, List.filterMap_flatMap,
    reversePostOrder_congr shape_rewrite]
  simp only [locatedAt_rewrite_map_snd]

theorem instructions_rewrite :
    (f.rewrite fate σ).instructions = f.located.filterMap fate := by
  rw [← map_snd_located, located_eq, located_eq, List.map_flatMap, List.filterMap_flatMap]
  simp only [locatedAt_rewrite_map_snd]
  simp [rewrite]

theorem mem_instructions_rewrite {j : Instruction} :
    j ∈ (f.rewrite fate σ).instructions ↔ ∃ e ∈ f.located, fate e = some j := by
  rw [instructions_rewrite, List.mem_filterMap]

theorem exitOperands_rewrite : (f.rewrite fate σ).exitOperands = f.exitOperands.map σ := by
  simp only [exitOperands, rewrite, List.flatMap_map, List.map_flatMap,
    Block.exitOperands_rewrite]
  conv_rhs => rw [← List.zipIdx_map_fst 0 f.blocks, List.flatMap_map]

/-! ## The changes that lowering makes -/

theorem mapLocated_eq {g : List (Site × Instruction) → List Instruction}
    (hg : ∀ l, g l = l.filterMap fate) : f.mapLocated g = f.rewrite fate id := by
  have h : ∀ t : Option Terminator, t.map (Terminator.mapOperands id) = t := by
    intro t
    cases t <;> simp
  simp only [mapLocated, rewrite, Block.rewrite, hg, h]

theorem replaceAt_eq {replacements : List (Site × Instruction)} :
    f.replaceAt replacements =
      f.rewrite (fun e => some ((replacements.lookup e.1).getD e.2)) id :=
  mapLocated_eq fun l => by rw [List.filterMap_eq_map']

theorem erase_eq {sites : List Site} :
    f.erase sites = f.rewrite (fun e => if e.1 ∈ sites then none else some e.2) id := by
  refine mapLocated_eq fun l => ?_
  induction l with
  | nil => rfl
  | cons e l ih => by_cases he : e.1 ∈ sites <;> simp_all

theorem substitute_eq {resolve : ValueId → Option Operand} :
    f.substitute resolve =
      f.rewrite (fun e => some (e.2.mapOperands (Operand.substitute resolve)))
        (Operand.substitute resolve) := by
  have h : ∀ b k, Block.mapOperands (Operand.substitute resolve) b =
      b.rewrite (fun e => some (e.2.mapOperands (Operand.substitute resolve)))
        (Operand.substitute resolve) k := by
    intro b k
    rw [Block.mapOperands, Block.rewrite, List.filterMap_eq_map',
      ← Block.map_snd_located (k := k), List.map_map]
    rfl
  rw [substitute, mapOperands, rewrite]
  congr 1
  conv_lhs => rw [← List.zipIdx_map_fst 0 f.blocks, List.map_map]
  exact List.map_congr_left fun e _ => h e.1 e.2

theorem rewrite_id : f.rewrite (fun e => some e.2) id = f := by
  rw [← mapLocated_eq (g := List.map Prod.snd) fun l => by rw [List.filterMap_eq_map'], mapLocated]
  simp

theorem rewrite_rewrite {change : Site × Instruction → Instruction} {τ : Operand → Operand} :
    (f.rewrite (fun e => some (change e)) σ).rewrite fate τ =
      f.rewrite (fun e => fate (e.1, change e)) (τ ∘ σ) := by
  have h : ∀ k, (Block.rewrite fate τ k) ∘ (Block.rewrite (fun e => some (change e)) σ k) =
      Block.rewrite (fun e => fate (e.1, change e)) (τ ∘ σ) k :=
    fun k => funext fun b => Block.rewrite_rewrite
  have hb : ((f.rewrite (fun e => some (change e)) σ).rewrite fate τ).blocks =
      (f.rewrite (fun e => fate (e.1, change e)) (τ ∘ σ)).blocks := by
    refine List.ext_getElem? fun k => ?_
    rw [getElem?_blocks_rewrite, getElem?_blocks_rewrite, getElem?_blocks_rewrite,
      Option.map_map, h]
  simp only [rewrite] at hb ⊢
  rw [hb]

end Function

end QuantumLowering
