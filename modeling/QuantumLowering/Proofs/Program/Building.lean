import Mathlib.Data.List.Perm.Basic
import QuantumLowering.Program.Builder
import QuantumLowering.Proofs.Program.Defects
import QuantumLowering.Proofs.Program.Functions
/-!
# Names given while a program is built

A program is built by operations of its own and of a builder that holds it
until the function is finished or dropped. Values are numbered in the order in
which they are named, across all functions, and blocks in the order in which
they are added to their function. So whatever is built, values and blocks are
told apart, and two functions share a name only if both were finished as
definitions (`Workbench.names_apart`).
-/


namespace QuantumLowering

/-! ## Operations -/

/-- What an operation yields. -/
inductive Yield where
  /-- Nothing that is named. -/
  | nothing
  /-- A new value. -/
  | value (v : ValueId)
  /-- A function that is started, with its first block. -/
  | entry (id : BlockId)
  /-- A new block of the function that is being built. -/
  | block (id : BlockId)
  /-- A finished definition. -/
  | definition (name : String)
deriving DecidableEq

namespace Yield

/-- The value that is yielded, if it is one. -/
def value? : Yield → Option ValueId
  | value v => some v
  | _ => none

/-- The name of the definition that is finished, if it is one. -/
def definition? : Yield → Option String
  | definition name => some name
  | _ => none

/-- The values among what operations yield. -/
def values (yields : List Yield) : List ValueId := yields.filterMap value?

/-- The names of the definitions among what operations yield. -/
def finished (yields : List Yield) : List String := yields.filterMap definition?

/-- The blocks of the function that was started last, given those that it had before. -/
def addTo (blocks : List BlockId) : Yield → List BlockId
  | entry id => [id]
  | block id => blocks ++ [id]
  | _ => blocks

/-- The blocks among what operations yield, from where a function was last started. -/
def blocks (yields : List Yield) : List BlockId := yields.foldl addTo []

variable (yields : List Yield) (yield : Yield)

@[simp] theorem values_concat :
    values (yields ++ [yield]) = values yields ++ yield.value?.toList := by
  cases h : yield.value? <;> simp [values, h]

@[simp] theorem finished_concat :
    finished (yields ++ [yield]) = finished yields ++ yield.definition?.toList := by
  cases h : yield.definition? <;> simp [finished, h]

@[simp] theorem blocks_concat : blocks (yields ++ [yield]) = yield.addTo (blocks yields) := by
  simp [blocks]

end Yield

namespace FunctionBuilder

/-- An operation of a builder. -/
inductive Call where
  /-- Adds a parameter. -/
  | param (type : Ty)
  /-- Sets an attribute. -/
  | setAttribute (key value : String)
  /-- Marks the function as the place where the program starts. -/
  | entryPoint
  /-- Adds a block. -/
  | block (label : String)
  /-- Goes on in a block. -/
  | switchTo (id : BlockId)
  /-- Appends a call without a value. -/
  | call (callee : String) (args : List Operand)
  /-- Appends a call that computes a value. -/
  | callValue (type : Ty) (callee : String) (args : List Operand)
  /-- Appends a copy. -/
  | copy (type : Ty) (source : Operand)
  /-- Appends a phi. -/
  | phi (type : Ty) (incoming : List (BlockId × Operand))
  /-- Ends the block, by a branch of either kind, a return or as unreachable. -/
  | terminate (t : Terminator)

/-- What a builder answers with a new value. -/
def named (r : ValueId × FunctionBuilder) : FunctionBuilder × Yield := (r.2, .value r.1)

/-- What a builder answers with a new block. -/
def added (r : BlockId × FunctionBuilder) : FunctionBuilder × Yield := (r.2, .block r.1)

/-- A builder after an operation, and what that yields. -/
def perform (b : FunctionBuilder) : Call → FunctionBuilder × Yield
  | .param type => named (b.param type)
  | .setAttribute key value => (b.setAttribute key value, .nothing)
  | .entryPoint => (b.entryPoint, .nothing)
  | .block label => added (b.block label)
  | .switchTo id => (b.switchTo id, .nothing)
  | .call callee args => (b.call callee args, .nothing)
  | .callValue type callee args => named (b.callValue type callee args)
  | .copy type source => named (b.copy type source)
  | .phi type incoming => named (b.phi type incoming)
  | .terminate t => (b.terminate t, .nothing)

end FunctionBuilder

/-- A program, or a builder that holds it. -/
inductive Workbench where
  /-- No function is being built. -/
  | program (p : Program)
  /-- A function is being built. -/
  | builder (b : FunctionBuilder)

namespace Workbench

/-- The program on the workbench, without a function that is being built. -/
def contents : Workbench → Program
  | program p => p
  | builder b => b.program

/-- **What can be done on a workbench**, and what it yields. As long as a builder holds the
program, nothing else is done with it. -/
inductive Step : Workbench → Yield → Workbench → Prop
  /-- A function is declared. -/
  | declare (p : Program) (name : String) (signature : List Ty) (returnType : Ty) :
    Step (program p) .nothing (program (p.declare name signature returnType))
  /-- A flag is set. -/
  | setFlag (p : Program) (key : String) (value : FlagValue) :
    Step (program p) .nothing (program (p.setFlag key value))
  /-- A value is named. -/
  | freshValue (p : Program) :
    Step (program p) (.value p.freshValue.1) (program p.freshValue.2)
  /-- A function is started. -/
  | build (p : Program) (name : String) (returnType : Ty) :
    Step (program p) (.entry ⟨0⟩) (builder (.start p name returnType))
  /-- The builder is used. -/
  | call (b : FunctionBuilder) (c : FunctionBuilder.Call) :
    Step (builder b) (b.perform c).2 (builder (b.perform c).1)
  /-- The function is finished. -/
  | finish (b : FunctionBuilder) :
    Step (builder b) (.definition b.function.name) (program b.finish)
  /-- The function is given up. -/
  | drop (b : FunctionBuilder) : Step (builder b) .nothing (program b.drop)

/-- **What can come of an empty program**, and what was yielded on the way. -/
inductive Reached (name : String) : List Yield → Workbench → Prop
  /-- Nothing was done. -/
  | new : Reached name [] (program (.empty name))
  /-- One more thing is done. -/
  | step {yields : List Yield} {yield : Yield} {w w' : Workbench} :
    Reached name yields w → Step w yield w' → Reached name (yields ++ [yield]) w'

end Workbench

/-! ## The program -/

namespace Program

/-- Functions that share a name are both definitions. -/
def SharesAsDefinition (f g : Function) : Prop :=
  f.name = g.name → f.isDeclaration = false ∧ g.isDeclaration = false

theorem SharesAsDefinition.symm {f g : Function} (h : SharesAsDefinition f g) :
    SharesAsDefinition g f :=
  fun hname => (h hname.symm).symm

/-- Nothing shares the name of a declaration. -/
theorem SharesAsDefinition.of_isDeclaration {f g g' : Function} (h : SharesAsDefinition f g)
    (hg : g.isDeclaration) (hname : g'.name = g.name) : SharesAsDefinition f g' := by
  intro hf
  have := (h (hf.trans hname)).2
  simp [hg] at this

/-- A function may replace a declaration of its name: nothing else has the name. -/
theorem shares_replace {front back : List Function} {g f : Function}
    (shared : (front ++ g :: back).Pairwise SharesAsDefinition) (hg : g.isDeclaration)
    (hname : f.name = g.name) : (front ++ f :: back).Pairwise SharesAsDefinition := by
  rw [List.pairwise_append, List.pairwise_cons] at shared ⊢
  obtain ⟨hfront, ⟨hgback, hback⟩, hacross⟩ := shared
  refine ⟨hfront, ⟨fun x hx => ?_, hback⟩, fun x hx y hy => ?_⟩
  · exact ((hgback x hx).symm.of_isDeclaration hg hname).symm
  · rcases List.mem_cons.1 hy with rfl | hy
    · exact (hacross x hx g List.mem_cons_self).of_isDeclaration hg hname
    · exact hacross x hx y (List.mem_cons_of_mem g hy)

/-- A definition may join functions of which the first of its name is no declaration: then
none of the name is. -/
theorem shares_append {p : Program} {f : Function}
    (shared : p.functions.Pairwise SharesAsDefinition) (defined : f.isDeclaration = false)
    (first : ∀ g, p.function? f.name = some g → g.isDeclaration = false) :
    (p.functions ++ [f]).Pairwise SharesAsDefinition := by
  refine List.pairwise_append.2 ⟨shared, List.pairwise_singleton _ _, fun x hx y hy => ?_⟩
  obtain rfl := List.mem_singleton.1 hy
  intro hname
  cases hfound : p.function? y.name with
  | none => exact absurd hname (by simpa using List.find?_eq_none.1 hfound x hx)
  | some g =>
    have hg := first g hfound
    refine ⟨?_, defined⟩
    by_cases hxg : x = g
    · exact hxg ▸ hg
    · have : Std.Symm SharesAsDefinition := ⟨fun _ _ h => h.symm⟩
      have hgname : g.name = y.name := by simpa using List.find?_some hfound
      exact (shared.forall hx (List.mem_of_find?_eq_some hfound) hxg
        (hname.trans hgname.symm)).1

/-- The function that is changed is the one that is found. -/
theorem exists_of_updateFirst {condition : Function → Bool} {g : Function}
    {functions : List Function} (h : functions.find? condition = some g)
    (change : Function → Function) :
    ∃ front back, functions = front ++ g :: back ∧
      updateFirst condition change functions = front ++ change g :: back := by
  induction functions with
  | nil => cases h
  | cons f rest ih =>
    unfold updateFirst
    cases hf : condition f with
    | true =>
      obtain rfl : f = g := by simpa [hf] using h
      exact ⟨[], rest, rfl, rfl⟩
    | false =>
      obtain ⟨front, back, hrest, hupdated⟩ := ih (by simpa [hf] using h)
      refine ⟨f :: front, back, by rw [hrest]; rfl, ?_⟩
      rw [if_neg Bool.false_ne_true, hupdated]
      rfl

/-- **A program with its names in order**, given what was yielded and the values that
belong to a function that is being built. -/
structure InOrder (p : Program) (yields : List Yield) (taken : List ValueId) : Prop where
  /-- Values were numbered as they were named. -/
  numbered : Yield.values yields = (List.range p.nextValue).map ValueId.mk
  /-- No value is defined twice. -/
  defined : (p.definitions.flatMap Function.definedValues ++ taken).Nodup
  /-- Values that are defined were named. -/
  below : ∀ v ∈ p.definitions.flatMap Function.definedValues ++ taken, v.number < p.nextValue
  /-- The blocks of a definition are told apart. -/
  blocks : ∀ f ∈ p.definitions, (f.blocks.map Block.id).Nodup
  /-- The definitions are those that were finished. -/
  finished : (p.definitions.map Function.name).Perm (Yield.finished yields)
  /-- Only definitions share a name. -/
  shared : p.functions.Pairwise SharesAsDefinition

namespace InOrder

variable {p p' : Program} {yields : List Yield} {yield : Yield} {taken taken' : List ValueId}
  {f : Function}

theorem empty (name : String) : (Program.empty name).InOrder [] [] where
  numbered := rfl
  defined := .nil
  below _ hv := nomatch hv
  blocks _ hf := nomatch hf
  finished := .nil
  shared := .nil

/-- Of the values taken some may be given up, and the others arranged in another way. -/
theorem mono (h : p.InOrder yields taken) (sub : taken'.Subperm taken) :
    p.InOrder yields taken' := by
  obtain ⟨kept, hperm, hsub⟩ :=
    (List.subperm_append_left (p.definitions.flatMap Function.definedValues)).2 sub
  exact { h with
    defined := hperm.nodup_iff.1 (hsub.nodup h.defined)
    below := fun v hv => h.below v (hsub.subset (hperm.mem_iff.2 hv)) }

/-- Where definitions, value numbers and names stay, no value and no definition is yielded. -/
theorem unchanged (h : p.InOrder yields taken) (definitions : p'.definitions = p.definitions)
    (nextValue : p'.nextValue = p.nextValue) (shared : p'.functions.Pairwise SharesAsDefinition)
    (value : yield.value? = none) (definition : yield.definition? = none) :
    p'.InOrder (yields ++ [yield]) taken where
  numbered := by simpa [value, nextValue] using h.numbered
  defined := definitions ▸ h.defined
  below := definitions ▸ nextValue ▸ h.below
  blocks := definitions ▸ h.blocks
  finished := by simpa [definition, definitions] using h.finished
  shared := shared

/-- A function is declared under a name that no function has. -/
theorem declare (h : p.InOrder yields taken) (name : String) (signature : List Ty)
    (returnType : Ty) :
    (p.declare name signature returnType).InOrder (yields ++ [.nothing]) taken := by
  have defs := definitions_declare (p := p) name signature returnType
  cases hnone : p.function? name with
  | some g =>
    have same : p.declare name signature returnType = p := by simp only [Program.declare, hnone]
    rw [same]
    exact h.unchanged rfl rfl h.shared rfl rfl
  | none =>
    refine h.unchanged defs (by simp only [Program.declare, hnone]) ?_ rfl rfl
    simp only [Program.declare, hnone]
    refine List.pairwise_append.2 ⟨h.shared, List.pairwise_singleton _ _, fun f hf g hg => ?_⟩
    obtain rfl := List.mem_singleton.1 hg
    intro hname
    exact absurd hname (by simpa [Function.declaration] using List.find?_eq_none.1 hnone f hf)

/-- A new value is taken. -/
theorem freshValue (h : p.InOrder yields taken) :
    p.freshValue.2.InOrder (yields ++ [.value p.freshValue.1]) (taken ++ [p.freshValue.1]) where
  numbered := by
    rw [Yield.values_concat, h.numbered]
    simp [Yield.value?, Program.freshValue, List.range_succ]
  defined := by
    rw [← List.append_assoc]
    refine List.nodup_append.2 ⟨h.defined, List.nodup_singleton _, fun v hv u hu hvu => ?_⟩
    obtain rfl := List.mem_singleton.1 hu
    exact absurd (hvu ▸ h.below v hv) (Nat.lt_irrefl _)
  below v hv := by
    rw [← List.append_assoc, List.mem_append] at hv
    rcases hv with hv | hv
    · exact Nat.lt_succ_of_lt (h.below v hv)
    · obtain rfl := List.mem_singleton.1 hv
      exact Nat.lt_succ_self _
  blocks := h.blocks
  finished := by
    rw [Yield.finished_concat]
    exact (List.append_nil (Yield.finished yields)).symm ▸ h.finished
  shared := h.shared

/-- **A definition joins the program** beside the others, with the values that were taken for it. -/
theorem define (h : p.InOrder yields f.definedValues) (blocks : (f.blocks.map Block.id).Nodup)
    (perm : p'.definitions.Perm (p.definitions ++ [f])) (nextValue : p'.nextValue = p.nextValue)
    (shared : p'.functions.Pairwise SharesAsDefinition) :
    p'.InOrder (yields ++ [.definition f.name]) [] := by
  have values : (p'.definitions.flatMap Function.definedValues ++ []).Perm
      (p.definitions.flatMap Function.definedValues ++ f.definedValues) := by
    simpa using perm.flatMap_right Function.definedValues
  refine ⟨?_, values.nodup_iff.2 h.defined, fun v hv => ?_, fun g hg => ?_, ?_, shared⟩
  · simpa [Yield.value?, nextValue] using h.numbered
  · rw [nextValue]
    exact h.below v (values.mem_iff.1 hv)
  · rcases List.mem_append.1 (perm.mem_iff.1 hg) with hg | hg
    · exact h.blocks g hg
    · exact List.mem_singleton.1 hg ▸ blocks
  · refine (perm.map Function.name).trans ?_
    simpa [Yield.definition?] using h.finished.append_right [f.name]

end InOrder

end Program

/-! ## What verification reports of names -/

namespace Program

variable {p : Program}

/-- Verification reports a name that is taken twice if there is one. -/
theorem verify_eq_duplicateFunction_iff :
    (∃ name, p.verify = .error (.duplicateFunction name)) ↔
      ¬ (p.functions.map Function.name).Nodup := by
  constructor
  · rintro ⟨name, hverify⟩ nodup
    exact not_two_le_count nodup name (holds_of_verify hverify)
  · intro repeats
    cases hfirst : Verify.firstRepeat? [] (p.functions.map Function.name) with
    | none => exact absurd (Verify.firstRepeat?_eq_none.1 hfirst).1 repeats
    | some name =>
      exact ⟨name, Verify.bind_eq_error.2 (.inl (Verify.rejectSome_eq_error.2 ⟨name, hfirst, rfl⟩))⟩

namespace InOrder

variable {yields : List Yield} {taken : List ValueId}

/-- Only definitions repeat a name. -/
theorem nodup_names_iff (h : p.InOrder yields taken) :
    (p.functions.map Function.name).Nodup ↔ (p.definitions.map Function.name).Nodup := by
  refine ⟨fun nodup => (List.filter_sublist.map Function.name).nodup nodup, fun nodup => ?_⟩
  have apart := List.pairwise_filter.1 (List.pairwise_map.1 nodup)
  refine List.pairwise_map.2 ((h.shared.and apart).imp ?_)
  rintro f g ⟨shares, apart⟩ hname
  obtain ⟨hf, hg⟩ := shares hname
  exact apart (by simp [hf]) (by simp [hg]) hname

/-- A name is reported if two definitions of that name were finished. -/
theorem verify_eq_duplicateFunction_iff (h : p.InOrder yields taken) :
    (∃ name, p.verify = .error (.duplicateFunction name)) ↔ ¬ (Yield.finished yields).Nodup := by
  rw [Program.verify_eq_duplicateFunction_iff, h.nodup_names_iff, h.finished.nodup_iff]

theorem verify_ne_duplicateDefinition (h : p.InOrder yields taken) (v : ValueId) :
    p.verify ≠ .error (.duplicateDefinition v) := by
  intro hverify
  have nodup := (List.nodup_append.1 h.defined).1
  exact not_two_le_count nodup v (holds_of_verify hverify)

theorem verify_ne_duplicateBlock (h : p.InOrder yields taken) (name : String) (id : BlockId) :
    p.verify ≠ .error (.duplicateBlock name id) := by
  intro hverify
  obtain ⟨f, hf, -, twice⟩ := holds_of_verify hverify
  exact not_two_le_count (h.blocks f hf) id twice

/-- Values are told apart by their numbers. -/
theorem nodup_values (h : p.InOrder yields taken) : (Yield.values yields).Nodup := by
  rw [h.numbered]
  exact List.nodup_range.map fun _ _ heq => congrArg ValueId.number heq

theorem lt_nextValue (h : p.InOrder yields taken) {v : ValueId} (hv : v ∈ Yield.values yields) :
    v.number < p.nextValue := by
  rw [h.numbered] at hv
  obtain ⟨n, hn, rfl⟩ := List.mem_map.1 hv
  exact List.mem_range.1 hn

/-- The blocks of every function are told apart; a declaration has none. -/
theorem nodup_blocks (h : p.InOrder yields taken) {f : Function} (hf : f ∈ p.functions) :
    (f.blocks.map Block.id).Nodup := by
  cases hdecl : f.isDeclaration with
  | false => exact h.blocks f (mem_definitions.2 ⟨hf, by simp [hdecl]⟩)
  | true =>
    rw [List.isEmpty_iff.1 hdecl]
    exact .nil

end InOrder

end Program

/-! ## The builder -/

namespace FunctionBuilder

variable {b b' : FunctionBuilder}

/-- **A builder in its place**: it fills a block of the function, and the blocks were
numbered as they were added. -/
structure Placed (b : FunctionBuilder) : Prop where
  /-- Blocks were numbered as they were added. -/
  numbered : b.function.blocks.map Block.id = (List.range b.nextBlock).map BlockId.mk
  /-- The block being filled exists. -/
  inside : b.current < b.function.blocks.length

namespace Placed

theorem start (p : Program) (name : String) (returnType : Ty) :
    (FunctionBuilder.start p name returnType).Placed :=
  ⟨rfl, Nat.zero_lt_one⟩

/-- Blocks are told apart. -/
theorem nodup (h : b.Placed) : (b.function.blocks.map Block.id).Nodup := by
  rw [h.numbered]
  exact List.nodup_range.map fun _ _ heq => congrArg BlockId.number heq

/-- The block being filled is there. -/
theorem isSome_currentBlock? (h : b.Placed) : b.currentBlock?.isSome := by
  simpa [currentBlock?] using h.inside

/-- A function that is being built is a definition. -/
theorem isDeclaration (h : b.Placed) : b.function.isDeclaration = false := by
  have := h.inside
  cases hb : b.function.blocks with
  | nil => simp [hb] at this
  | cons c rest => simp [Function.isDeclaration, hb]

end Placed

/-- **What an operation of a builder changes**, as far as values go. -/
inductive Changes (b : FunctionBuilder) : FunctionBuilder → Yield → Prop
  /-- No value is named. -/
  | unnamed {b' : FunctionBuilder} {yield : Yield} : yield.value? = none →
    yield.definition? = none → b'.program = b.program →
    b'.function.definedValues.Perm b.function.definedValues → Changes b b' yield
  /-- A new value is named, and the function defines it. -/
  | named {b' : FunctionBuilder} : b'.program = b.program.freshValue.2 →
    b'.function.definedValues.Perm (b.function.definedValues ++ [b.program.freshValue.1]) →
    Changes b b' (.value b.program.freshValue.1)

/-- Changing the block being filled changes one block. -/
theorem exists_updateCurrent (h : b.Placed) (change : Block → Block) :
    ∃ front c back, b.function.blocks = front ++ c :: back ∧
      (b.updateCurrent change).function.blocks = front ++ change c :: back := by
  obtain ⟨front, c, back, hblocks, -, hmodified⟩ := List.exists_of_modify change h.inside
  exact ⟨front, c, back, hblocks, hmodified⟩

/-- A block keeps its name while it is filled. -/
theorem ids_updateCurrent (h : b.Placed) {change : Block → Block}
    (keeps : ∀ c, (change c).id = c.id) :
    (b.updateCurrent change).function.blocks.map Block.id = b.function.blocks.map Block.id := by
  obtain ⟨front, c, back, hblocks, hchanged⟩ := exists_updateCurrent h change
  simp [hblocks, hchanged, keeps]

theorem Placed.updateCurrent (h : b.Placed) {change : Block → Block}
    (keeps : ∀ c, (change c).id = c.id) : (b.updateCurrent change).Placed := by
  have ids := ids_updateCurrent h keeps
  refine ⟨ids.trans h.numbered, ?_⟩
  have length := congrArg List.length ids
  rw [List.length_map, List.length_map] at length
  rw [length]
  exact h.inside

/-- An instruction that is appended comes last in its block. -/
theorem instructions_push (h : b.Placed) (i : Instruction) :
    ∃ before after, b.function.instructions = before ++ after ∧
      (b.push i).function.instructions = before ++ i :: after := by
  obtain ⟨front, c, back, hblocks, hchanged⟩ :=
    exists_updateCurrent h fun c => { c with instructions := c.instructions ++ [i] }
  refine ⟨front.flatMap Block.instructions ++ c.instructions, back.flatMap Block.instructions,
    ?_, ?_⟩
  · rw [Function.instructions, hblocks]
    simp
  · rw [push, Function.instructions, hchanged]
    simp

/-- An instruction that is appended adds what it computes. -/
theorem definedValues_push (h : b.Placed) (i : Instruction) :
    (b.push i).function.definedValues.Perm (b.function.definedValues ++ i.result.toList) := by
  obtain ⟨before, after, hbefore, hpushed⟩ := instructions_push h i
  have params : (b.push i).function.params = b.function.params := rfl
  have split : (i :: after).filterMap Instruction.result =
      i.result.toList ++ after.filterMap Instruction.result := by
    cases hi : i.result <;> simp [hi]
  rw [Function.definedValues, Function.definedValues, hbefore, hpushed, params]
  rw [List.filterMap_append, List.filterMap_append, split, List.append_assoc, List.append_assoc]
  exact .append_left _ (.append_left _ List.perm_append_comm)

/-- What only touches the end of a block leaves the values alone. -/
theorem definedValues_terminate (h : b.Placed) (t : Terminator) :
    (b.terminate t).function.definedValues = b.function.definedValues := by
  obtain ⟨front, c, back, hblocks, hchanged⟩ :=
    exists_updateCurrent h fun c => { c with terminator := some t }
  have same : (b.terminate t).function.instructions = b.function.instructions := by
    rw [Function.instructions, terminate, hchanged, Function.instructions, hblocks]
    simp
  rw [Function.definedValues, same]
  rfl

theorem Placed.push (h : b.Placed) (i : Instruction) : (b.push i).Placed :=
  h.updateCurrent fun _ => rfl

/-- **Every operation of a builder is one of those**, and leaves it in its place. -/
theorem changes_perform (h : b.Placed) (c : Call) :
    b.Changes (b.perform c).1 (b.perform c).2 ∧ (b.perform c).1.Placed := by
  -- naming a value does not move the builder
  have fresh : b.freshValue.2.Placed := ⟨h.numbered, h.inside⟩
  have computed : ∀ type operation,
      b.Changes (b.pushValue type operation).2 (.value (b.pushValue type operation).1) ∧
        (b.pushValue type operation).2.Placed := by
    intro type operation
    exact ⟨.named rfl (definedValues_push fresh _), fresh.push _⟩
  cases c with
  | param type =>
    refine ⟨.named rfl ?_, h.numbered, h.inside⟩
    simp only [perform, named, param, freshValue, Function.definedValues, List.map_append,
      List.append_assoc]
    exact .append_left _ List.perm_append_comm
  | setAttribute key value => exact ⟨.unnamed rfl rfl rfl .rfl, h.numbered, h.inside⟩
  | entryPoint => exact ⟨.unnamed rfl rfl rfl .rfl, h.numbered, h.inside⟩
  | block label =>
    refine ⟨.unnamed rfl rfl rfl (.of_eq ?_), ?_, ?_⟩
    · simp [perform, added, block, Function.definedValues, Function.instructions, Block.fresh]
    · simp [perform, added, block, h.numbered, List.range_succ, Block.fresh]
    · simpa [perform, added, block] using Nat.lt_succ_of_lt h.inside
  | switchTo id =>
    simp only [perform, switchTo]
    split
    · rename_i i hi
      obtain ⟨hlt, -⟩ := List.findIdx?_eq_some_iff_getElem.1 hi
      exact ⟨.unnamed rfl rfl rfl .rfl, h.numbered, hlt⟩
    · exact ⟨.unnamed rfl rfl rfl .rfl, h⟩
  | call callee args =>
    refine ⟨.unnamed rfl rfl rfl ?_, h.push _⟩
    exact (definedValues_push h (.call callee args)).trans (.of_eq (List.append_nil _))
  | callValue type callee args => exact computed type _
  | copy type source => exact computed type _
  | phi type incoming => exact computed type _
  | terminate t =>
    refine ⟨.unnamed rfl rfl rfl (.of_eq (definedValues_terminate h t)), ?_⟩
    exact h.updateCurrent fun _ => rfl

/-- **The blocks of the function are those that were yielded**: an operation adds the block
that it answers with, and no other. -/
theorem ids_perform (h : b.Placed) (c : Call) :
    (b.perform c).1.function.blocks.map Block.id =
      (b.perform c).2.addTo (b.function.blocks.map Block.id) := by
  have fresh : b.freshValue.2.Placed := ⟨h.numbered, h.inside⟩
  cases c with
  | param type => rfl
  | setAttribute key value => rfl
  | entryPoint => rfl
  | block label => simp [perform, added, block, Yield.addTo, Block.fresh]
  | switchTo id =>
    simp only [perform, switchTo]
    split <;> rfl
  | call callee args => exact ids_updateCurrent h fun _ => rfl
  | callValue type callee args => exact ids_updateCurrent fresh fun _ => rfl
  | copy type source => exact ids_updateCurrent fresh fun _ => rfl
  | phi type incoming => exact ids_updateCurrent fresh fun _ => rfl
  | terminate t => exact ids_updateCurrent h fun _ => rfl

/-- **A function that is finished** replaces a declaration of its name, or else joins the
others; then no declaration comes first with its name. -/
theorem finish_cases (b : FunctionBuilder) :
    (∃ front g back, b.program.functions = front ++ g :: back ∧ g.isDeclaration ∧
        g.name = b.function.name ∧
        b.finish = { b.program with functions := front ++ b.function :: back }) ∨
      (∀ g, b.program.function? b.function.name = some g → g.isDeclaration = false) ∧
        b.finish = { b.program with functions := b.program.functions ++ [b.function] } := by
  unfold finish
  cases hfound : b.program.function? b.function.name with
  | none => exact .inr ⟨fun g hg => (nomatch hg), rfl⟩
  | some g =>
    cases hdecl : g.isDeclaration with
    | false =>
      refine .inr ⟨fun g' hg' => ?_, by simp [hdecl]⟩
      cases hg'
      exact hdecl
    | true =>
      obtain ⟨front, back, hfunctions, hupdated⟩ :=
        Program.exists_of_updateFirst hfound fun _ => b.function
      refine .inl ⟨front, g, back, hfunctions, hdecl, ?_, ?_⟩
      · simpa using List.find?_some hfound
      · simp [hdecl, Program.updateFunction, hupdated]

variable {yields : List Yield}

/-- **A function that is finished joins the program** with its names in order. -/
theorem inOrder_finish (h : b.program.InOrder yields b.function.definedValues) (placed : b.Placed) :
    b.finish.InOrder (yields ++ [.definition b.function.name]) [] := by
  have defined := placed.isDeclaration
  rcases finish_cases b with ⟨front, g, back, hfunctions, hg, hname, hfinish⟩ | ⟨first, hfinish⟩
  · refine h.define placed.nodup ?_ (by rw [hfinish]) ?_
    · simp only [hfinish, Program.definitions, hfunctions, List.filter_append, List.filter_cons,
        defined, hg, Bool.not_false, Bool.not_true, if_true, Bool.false_eq_true, if_false,
        List.append_assoc]
      exact .append_left _ (List.perm_append_singleton _ _).symm
    · rw [hfinish]
      exact Program.shares_replace (hfunctions ▸ h.shared) hg hname.symm
  · refine h.define placed.nodup ?_ (by rw [hfinish]) ?_
    · simp [hfinish, Program.definitions, defined]
    · rw [hfinish]
      exact Program.shares_append h.shared defined first

end FunctionBuilder

/-! ## The workbench -/

namespace Workbench

/-- The function that is being built, if there is one. -/
def building? : Workbench → Option Function
  | program _ => none
  | builder b => some b.function

/-- **The names on a workbench are in order**, given what was yielded. -/
def InOrder (yields : List Yield) : Workbench → Prop
  | program p => p.InOrder yields [] ∧ (Yield.blocks yields).Nodup
  | builder b => b.program.InOrder yields b.function.definedValues ∧ b.Placed ∧
    b.function.blocks.map Block.id = Yield.blocks yields

variable {name : String} {yields : List Yield} {yield : Yield} {w w' : Workbench}

/-- The blocks that were yielded since a function was started are told apart. -/
theorem InOrder.nodup_blocks (h : w.InOrder yields) : (Yield.blocks yields).Nodup := by
  cases w with
  | program p => exact h.2
  | builder b => exact h.2.2 ▸ h.2.1.nodup

/-- Whatever is done, the names stay in order. -/
theorem InOrder.step (h : w.InOrder yields) (step : Step w yield w') :
    w'.InOrder (yields ++ [yield]) := by
  -- what does not yield a block leaves those that were yielded before
  have kept (same : ∀ blocks, yield.addTo blocks = blocks) :
      (Yield.blocks (yields ++ [yield])).Nodup := by
    rw [Yield.blocks_concat, same]
    exact h.nodup_blocks
  cases step with
  | declare p name signature returnType =>
    exact ⟨h.1.declare name signature returnType, kept fun _ => rfl⟩
  | setFlag p key value => exact ⟨h.1.unchanged rfl rfl h.1.shared rfl rfl, kept fun _ => rfl⟩
  | freshValue p => exact ⟨h.1.freshValue.mono List.nil_subperm, kept fun _ => rfl⟩
  | build p name returnType =>
    refine ⟨h.1.unchanged rfl rfl h.1.shared rfl rfl, .start p name returnType, ?_⟩
    rw [Yield.blocks_concat]
    rfl
  | call b c =>
    obtain ⟨program, placed, ids⟩ := h
    obtain ⟨changes, placed'⟩ := FunctionBuilder.changes_perform placed c
    have ids' := FunctionBuilder.ids_perform placed c
    rw [ids, ← Yield.blocks_concat] at ids'
    refine ⟨?_, placed', ids'⟩
    generalize (b.perform c).1 = b' at changes
    generalize (b.perform c).2 = yield at changes ⊢
    cases changes with
    | unnamed value definition hprogram hvalues =>
      rw [hprogram]
      exact (program.unchanged rfl rfl program.shared value definition).mono hvalues.subperm
    | named hprogram hvalues =>
      rw [hprogram]
      exact program.freshValue.mono hvalues.subperm
  | finish b => exact ⟨FunctionBuilder.inOrder_finish h.1 h.2.1, kept fun _ => rfl⟩
  | drop b =>
    exact ⟨(h.1.unchanged rfl rfl h.1.shared rfl rfl).mono List.nil_subperm, kept fun _ => rfl⟩

/-- **Whatever is done, names are in order**: by induction on what was done. -/
theorem Reached.inOrder (h : Reached name yields w) : w.InOrder yields := by
  induction h with
  | new => exact ⟨.empty name, .nil⟩
  | step _ hstep ih => exact ih.step hstep

/-- The program on a workbench has its names in order. -/
theorem InOrder.contents (h : w.InOrder yields) : ∃ taken, w.contents.InOrder yields taken := by
  cases w with
  | program p => exact ⟨[], h.1⟩
  | builder b => exact ⟨_, h.1⟩

/-- **Whatever is built from an empty program, names are told apart.** The values that were
named are as many as the program says and differ from each other; each lies below the next
one. The blocks that were named since a function was started differ, and so do those of each
function. While one is being built, those that were named are its blocks, and the block that
its builder fills exists. Verification reports no value and no block that repeats, and
it reports a function that repeats exactly if two definitions of one name were finished. -/
theorem names_apart (h : Reached name yields w) :
    ((Yield.values yields).Nodup ∧ (Yield.values yields).length = w.contents.nextValue ∧
        ∀ v ∈ Yield.values yields, v.number < w.contents.nextValue) ∧
      ((Yield.blocks yields).Nodup ∧
        ∀ f, f ∈ w.contents.functions ∨ w.building? = some f → (f.blocks.map Block.id).Nodup) ∧
      (∀ b, w = builder b → b.function.blocks.map Block.id = Yield.blocks yields ∧
        b.nextBlock = b.function.blocks.length ∧
          ∃ c ∈ b.function.blocks, b.currentBlock? = some c) ∧
      (∀ v, w.contents.verify ≠ .error (.duplicateDefinition v)) ∧
      (∀ f id, w.contents.verify ≠ .error (.duplicateBlock f id)) ∧
      ((∃ f, w.contents.verify = .error (.duplicateFunction f)) ↔
        ¬ (Yield.finished yields).Nodup) := by
  have order := h.inOrder
  obtain ⟨taken, program⟩ := order.contents
  refine ⟨⟨program.nodup_values, ?_, fun v hv => program.lt_nextValue hv⟩,
    ⟨order.nodup_blocks, ?_⟩, ?_, program.verify_ne_duplicateDefinition,
    program.verify_ne_duplicateBlock, program.verify_eq_duplicateFunction_iff⟩
  · simp [program.numbered]
  · rintro f (hf | hf)
    · exact program.nodup_blocks hf
    · cases w with
      | program p => cases hf
      | builder b =>
        cases hf
        exact order.2.1.nodup
  · rintro b rfl
    obtain ⟨-, placed, ids⟩ := order
    refine ⟨ids, ?_, ?_⟩
    · simpa using (congrArg List.length placed.numbered).symm
    · obtain ⟨c, hc⟩ := Option.isSome_iff_exists.1 placed.isSome_currentBlock?
      exact ⟨c, List.mem_of_getElem? hc, hc⟩

/-- A definition takes the place of a declaration, a builder is given up with the value it
named, and a second definition of the first name is finished. -/
theorem names_apart_twoOfOneName : ∃ yields w, Reached "twice" yields w ∧
    Yield.values yields = [⟨0⟩, ⟨1⟩, ⟨2⟩, ⟨3⟩] ∧ w.contents.nextValue = 4 ∧
    (Yield.values yields).Nodup ∧ Yield.blocks yields = [⟨0⟩, ⟨1⟩] ∧
    (Yield.blocks yields).Nodup ∧ Yield.finished yields = ["f", "f"] ∧
    w.contents.verify = .error (.duplicateFunction "f") ∧ ¬ (Yield.finished yields).Nodup := by
  have run := (Reached.new : Reached "twice" [] (program (.empty "twice")))
    |>.step (.declare _ "f" [.qubit] .void)
    |>.step (.build _ "f" .void)
    |>.step (.call _ (.param .qubit))
    |>.step (.call _ (.block "next"))
    |>.step (.call _ (.terminate (.branch ⟨1⟩)))
    |>.step (.call _ (.switchTo ⟨7⟩))
    |>.step (.call _ (.switchTo ⟨1⟩))
    |>.step (.call _ (.phi .qubit [(⟨0⟩, .value ⟨0⟩)]))
    |>.step (.call _ (.terminate (.ret none)))
    |>.step (.finish _)
    |>.step (.build _ "g" .void)
    |>.step (.call _ (.copy .qubit (.value ⟨1⟩)))
    |>.step (.drop _)
    |>.step (.freshValue _)
    |>.step (.build _ "f" .void)
    |>.step (.call _ (.block "last"))
    |>.step (.call _ (.terminate (.ret none)))
    |>.step (.finish _)
  obtain ⟨⟨nodup, -, -⟩, ⟨blocks, -⟩, -, -, -, reported⟩ := names_apart run
  exact ⟨_, _, run, rfl, rfl, nodup, rfl, blocks, rfl, by decide, reported.1 ⟨"f", by decide⟩⟩

end Workbench

end QuantumLowering
