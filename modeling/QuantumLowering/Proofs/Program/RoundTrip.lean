import QuantumLowering.Proofs.Json.Decoding
/-!
# Programs are read back

The JSON form of a program keeps all of it. Whatever has a number in it has to
fit the machine words that numbers are read into (`Program.InRange`), and a double
has to be one whose text spells it again (`Operand.Respelled`): then the form is
decoded to the same program, from its text as well as from its value
(`Program.ofText?_render`).
-/


namespace QuantumLowering

/-! ## What is in range -/

/-- Operands whose numbers fit machine words. -/
def Operand.InRange : Operand → Prop
  | value v => v.number < numberLimit
  | qubit a | result a => a < addressLimit
  | int i => IntInRange i
  | bool _ | double _ | null => True

/-- And flags. -/
def FlagValue.InRange : FlagValue → Prop
  | int i => IntInRange i
  | bool _ | string _ => True

/-- The blocks that a phi lists. -/
def Operation.blocks : Operation → List BlockId
  | phi incoming => incoming.map Prod.fst
  | call _ _ | copy _ => []

/-- Operations whose operands and blocks do. -/
structure Operation.InRange (o : Operation) : Prop where
  operands : ∀ op ∈ o.operands, op.InRange
  blocks : ∀ b ∈ o.blocks, b.number < numberLimit

/-- And instructions. -/
structure Instruction.InRange (i : Instruction) : Prop where
  result : ∀ v ∈ i.result, v.number < numberLimit
  operation : i.operation.InRange

/-- And terminators. -/
structure Terminator.InRange (t : Terminator) : Prop where
  operands : ∀ op ∈ t.operands, op.InRange
  successors : ∀ b ∈ t.successors, b.number < numberLimit

/-- And blocks. -/
structure Block.InRange (b : Block) : Prop where
  id : b.id.number < numberLimit
  instructions : ∀ i ∈ b.instructions, i.InRange
  terminator : ∀ t ∈ b.terminator, t.InRange

/-- And functions. -/
structure Function.InRange (f : Function) : Prop where
  params : ∀ p ∈ f.params, p.value.number < numberLimit
  blocks : ∀ b ∈ f.blocks, b.InRange

/-- **A program whose numbers fit machine words**: those of values, blocks and new
values have 32 bits, addresses 64, integers 64 with a sign. -/
structure Program.InRange (p : Program) : Prop where
  functions : ∀ f ∈ p.functions, f.InRange
  flags : ∀ e ∈ p.flags.entries, e.2.InRange
  nextValue : p.nextValue < numberLimit

/-- A double operand is finite and its text spells it again. Reading rounds twice, so
there are finite doubles whose text spells a double beside them. -/
def Operand.Respelled : Operand → Prop
  | double d => d.isFinite = true ∧ (NumberLiteral.ofDouble d).double? = some d
  | _ => True

section Decidable

instance (i : Int) : Decidable (IntInRange i) := inferInstanceAs (Decidable (_ ∧ _))

instance : (o : Operand) → Decidable o.InRange
  | .value v => inferInstanceAs (Decidable (v.number < numberLimit))
  | .qubit a | .result a => inferInstanceAs (Decidable (a < addressLimit))
  | .int i => inferInstanceAs (Decidable (IntInRange i))
  | .bool _ | .double _ | .null => isTrue trivial

instance : (v : FlagValue) → Decidable v.InRange
  | .int i => inferInstanceAs (Decidable (IntInRange i))
  | .bool _ | .string _ => isTrue trivial

instance (o : Operation) : Decidable o.InRange :=
  decidable_of_decidable_of_iff
    (p := (∀ op ∈ o.operands, op.InRange) ∧ ∀ b ∈ o.blocks, b.number < numberLimit)
    ⟨fun h => ⟨h.1, h.2⟩, fun h => ⟨h.1, h.2⟩⟩

instance (i : Instruction) : Decidable i.InRange :=
  decidable_of_decidable_of_iff
    (p := (∀ v ∈ i.result, v.number < numberLimit) ∧ i.operation.InRange)
    ⟨fun h => ⟨h.1, h.2⟩, fun h => ⟨h.1, h.2⟩⟩

instance (t : Terminator) : Decidable t.InRange :=
  decidable_of_decidable_of_iff
    (p := (∀ op ∈ t.operands, op.InRange) ∧ ∀ b ∈ t.successors, b.number < numberLimit)
    ⟨fun h => ⟨h.1, h.2⟩, fun h => ⟨h.1, h.2⟩⟩

instance (b : Block) : Decidable b.InRange :=
  decidable_of_decidable_of_iff
    (p := b.id.number < numberLimit ∧ (∀ i ∈ b.instructions, i.InRange) ∧
      ∀ t ∈ b.terminator, t.InRange)
    ⟨fun h => ⟨h.1, h.2.1, h.2.2⟩, fun h => ⟨h.1, h.2, h.3⟩⟩

instance (f : Function) : Decidable f.InRange :=
  decidable_of_decidable_of_iff
    (p := (∀ p ∈ f.params, p.value.number < numberLimit) ∧ ∀ b ∈ f.blocks, b.InRange)
    ⟨fun h => ⟨h.1, h.2⟩, fun h => ⟨h.1, h.2⟩⟩

instance (p : Program) : Decidable p.InRange :=
  decidable_of_decidable_of_iff
    (p := (∀ f ∈ p.functions, f.InRange) ∧ (∀ e ∈ p.flags.entries, e.2.InRange) ∧
      p.nextValue < numberLimit)
    ⟨fun h => ⟨h.1, h.2.1, h.2.2⟩, fun h => ⟨h.1, h.2, h.3⟩⟩

instance : (o : Operand) → Decidable o.Respelled
  | .double d => inferInstanceAs
    (Decidable (d.isFinite = true ∧ (NumberLiteral.ofDouble d).double? = some d))
  | .value _ | .qubit _ | .result _ | .int _ | .bool _ | .null => isTrue trivial

-- it is written 0.9166762957659571, which is read as the double above it
example : ¬ Operand.Respelled (.double ⟨4606431905593338278⟩) := by decide +kernel

end Decidable

/-! ## Values, operands and operations -/

theorem ValueId.ofJson?_toJson {v : ValueId} (h : v.number < numberLimit) :
    ofJson? v.toJson = some v := by
  simp [ofJson?, toJson, Json.nat, Json.int, Document.nat?, NumberLiteral.nat?_ofInt h]

theorem BlockId.ofJson?_toJson {b : BlockId} (h : b.number < numberLimit) :
    ofJson? b.toJson = some b := by
  simp [ofJson?, toJson, Json.nat, Json.int, Document.nat?, NumberLiteral.nat?_ofInt h]

theorem Ty.ofJson?_toJson (t : Ty) : ofJson? t.toJson = some t := by
  cases t <;> rfl

/-- **An operand is read back**, a double if its text spells it. -/
theorem Operand.ofJson?_toJson {o : Operand} (h : o.InRange) (hd : o.Respelled) :
    ofJson? o.toJson = some o := by
  cases o with
  | value v => exact congrArg (Option.map value) (ValueId.ofJson?_toJson h)
  | qubit a => exact congrArg (Option.map qubit) (NumberLiteral.nat?_ofInt h)
  | result a => exact congrArg (Option.map result) (NumberLiteral.nat?_ofInt h)
  | int i => exact congrArg (Option.map int) (NumberLiteral.int?_ofInt h)
  | bool b => rfl
  | double d => exact congrArg (Option.map double) hd.2
  | null => rfl

variable {positional : Bool}

/-- The fields of a choice are found by their names, wherever it was taken from. -/
theorem Fields.ofChoice?_object {names : List String} {members : List (String × Json)}
    {fields : Fields Json} (h : Fields.read? names (Json.object members) = some fields) :
    Fields.ofChoice? positional names (Json.object members) = some fields := by
  cases positional <;> exact h

/-- A phi's operand and its block are read back. -/
theorem Operation.incomingOfJson?_toJson {e : BlockId × Operand} (hb : e.1.number < numberLimit)
    (ho : Operand.ofJson? e.2.toJson = some e.2) :
    incomingOfJson? (incomingToJson e) = some e := by
  simp [incomingOfJson?, incomingToJson, BlockId.ofJson?_toJson hb, ho]

theorem Operation.ofJson?_toJson {o : Operation} (h : o.InRange)
    (hd : ∀ op ∈ o.operands, op.Respelled) :
    ofJson? positional o.toJson = some o := by
  have decoded : ∀ op ∈ o.operands, Operand.ofJson? op.toJson = some op := fun op hop =>
    Operand.ofJson?_toJson (h.operands op hop) (hd op hop)
  cases o with
  | call callee args =>
    have passed : Document.listOf? Operand.ofJson? (Json.ofList Operand.toJson args) = some args :=
      Document.listOf?_ofList decoded
    rw [toJson, ofJson?, Fields.ofChoice?_object rfl]
    simp [Fields.required?, List.lookup_cons, Document.string?_string, passed]
  | copy source =>
    rw [toJson, ofJson?, Fields.ofChoice?_object rfl]
    simp [Fields.required?, decoded source List.mem_cons_self]
  | phi incoming =>
    have pairs : ∀ e ∈ incoming, incomingOfJson? (incomingToJson e) = some e := fun e he =>
      incomingOfJson?_toJson (h.blocks e.1 (List.mem_map_of_mem he))
        (decoded e.2 (List.mem_map_of_mem he))
    rw [toJson, ofJson?, Fields.ofChoice?_object rfl]
    simp [Fields.required?, Document.listOf?_ofList pairs]

theorem Instruction.ofJson?_toJson {i : Instruction} (h : i.InRange)
    (hd : ∀ op ∈ i.operands, op.Respelled) :
    ofJson? positional i.toJson = some i := by
  have fields : Fields.read? ["result", "ty", "kind"] i.toJson = some ⟨true,
    [("result", .ofOption ValueId.toJson i.result), ("ty", i.type.toJson),
      ("kind", i.operation.toJson)]⟩ := rfl
  have result : Document.nullable? ValueId.ofJson? (Json.ofOption ValueId.toJson i.result) =
      some i.result :=
    Document.nullable?_ofOption fun v hv => ⟨ValueId.ofJson?_toJson (h.result v hv), rfl⟩
  have operation : Operation.ofJson? positional i.operation.toJson = some i.operation :=
    Operation.ofJson?_toJson h.operation hd
  simp [ofJson?, fields, Fields.nullable?, Fields.required?, List.lookup_cons, result,
    Ty.ofJson?_toJson, operation]

/-! ## Terminators and blocks -/

theorem Operand.isNull_toJson (o : Operand) : o.toJson.isNull = false := by
  cases o <;> rfl

theorem Terminator.isNull_toJson (t : Terminator) : t.toJson.isNull = false := by
  cases t <;> rfl

/-- **A terminator is read back**: returning nothing and returning the absent value are
told apart. -/
theorem Terminator.ofJson?_toJson {t : Terminator} (h : t.InRange)
    (hd : ∀ op ∈ t.operands, op.Respelled) :
    ofJson? positional t.toJson = some t := by
  have decoded : ∀ op ∈ t.operands, Operand.ofJson? op.toJson = some op := fun op hop =>
    Operand.ofJson?_toJson (h.operands op hop) (hd op hop)
  have targets : ∀ b ∈ t.successors, BlockId.ofJson? b.toJson = some b := fun b hb =>
    BlockId.ofJson?_toJson (h.successors b hb)
  cases t with
  | ret value =>
    have returned : Document.nullable? Operand.ofJson? (Json.ofOption Operand.toJson value) =
        some value := by
      refine Document.nullable?_ofOption fun op hop => ⟨decoded op ?_, op.isNull_toJson⟩
      rw [hop]
      exact List.mem_cons_self
    exact congrArg (Option.map ret) returned
  | branch target => exact congrArg (Option.map branch) (targets target List.mem_cons_self)
  | condBranch condition thenBlock elseBlock =>
    rw [toJson, ofJson?, Fields.ofChoice?_object rfl]
    simp [Fields.required?, List.lookup_cons, decoded condition (by simp [operands]),
      targets thenBlock (by simp [successors]), targets elseBlock (by simp [successors])]
  | unreachable => rfl

theorem Block.ofJson?_toJson {b : Block} (h : b.InRange)
    (hd : ∀ op ∈ b.instructions.flatMap Instruction.operands ++ b.exitOperands, op.Respelled) :
    ofJson? positional b.toJson = some b := by
  have fields : Fields.read? ["id", "label", "instructions", "terminator"] b.toJson = some ⟨true,
    [("id", b.id.toJson), ("label", .string b.label),
      ("instructions", .ofList Instruction.toJson b.instructions),
      ("terminator", .ofOption Terminator.toJson b.terminator)]⟩ := rfl
  have instructions : Document.listOf? (Instruction.ofJson? positional)
      (Json.ofList Instruction.toJson b.instructions) = some b.instructions :=
    Document.listOf?_ofList fun i hi => Instruction.ofJson?_toJson (h.instructions i hi)
      fun op hop => hd op (List.mem_append_left _ (List.mem_flatMap.2 ⟨i, hi, hop⟩))
  have terminator : Document.nullable? (Terminator.ofJson? positional)
      (Json.ofOption Terminator.toJson b.terminator) = some b.terminator := by
    refine Document.nullable?_ofOption fun t ht => ⟨?_, t.isNull_toJson⟩
    refine Terminator.ofJson?_toJson (h.terminator t ht) fun op hop => hd op ?_
    refine List.mem_append_right _ ?_
    unfold exitOperands
    rw [Option.mem_def.1 ht]
    exact hop
  simp [ofJson?, fields, Fields.required?, Fields.nullable?, List.lookup_cons,
    BlockId.ofJson?_toJson h.id, Document.string?_string, instructions, terminator]

/-! ## Functions and programs -/

theorem Param.ofJson?_toJson {p : Param} (h : p.value.number < numberLimit) :
    ofJson? p.toJson = some p := by
  have fields : Fields.read? ["value", "ty"] p.toJson =
    some ⟨true, [("value", p.value.toJson), ("ty", p.type.toJson)]⟩ := rfl
  simp [ofJson?, fields, Fields.required?, List.lookup_cons, ValueId.ofJson?_toJson h,
    Ty.ofJson?_toJson]

theorem Function.ofJson?_toJson {f : Function} (h : f.InRange)
    (hd : ∀ op ∈ f.operands, op.Respelled) :
    ofJson? positional f.toJson = some f := by
  have fields : Fields.read? ["name", "params", "signature", "return_type", "blocks",
      "attributes"] f.toJson = some ⟨true,
    [("name", .string f.name), ("params", .ofList Param.toJson f.params),
      ("signature", .ofList Ty.toJson f.signature), ("return_type", f.returnType.toJson),
      ("blocks", .ofList Block.toJson f.blocks),
      ("attributes", f.attributes.toJson .string)]⟩ := rfl
  have params : Document.listOf? Param.ofJson? (Json.ofList Param.toJson f.params) =
      some f.params :=
    Document.listOf?_ofList fun p hp => Param.ofJson?_toJson (h.params p hp)
  have signature : Document.listOf? Ty.ofJson? (Json.ofList Ty.toJson f.signature) =
      some f.signature :=
    Document.listOf?_ofList fun t _ => Ty.ofJson?_toJson t
  have blocks : Document.listOf? (Block.ofJson? positional) (Json.ofList Block.toJson f.blocks) =
      some f.blocks :=
    Document.listOf?_ofList fun b hb => Block.ofJson?_toJson (h.blocks b hb)
      fun op hop => hd op (List.mem_flatMap.2 ⟨b, hb, hop⟩)
  have attributes : SortedMap.ofJson? Document.string? (f.attributes.toJson .string) =
      some f.attributes :=
    SortedMap.ofJson?_toJson fun _ _ => rfl
  simp [ofJson?, fields, Fields.required?, Fields.withDefault?, List.lookup_cons,
    Document.string?_string, params, signature, Ty.ofJson?_toJson, blocks, attributes]

/-- **A flag is read back** with its kind: no two kinds share a form. -/
theorem FlagValue.ofJson?_toJson {v : FlagValue} (h : v.InRange) :
    ofJson? v.toJson = some v := by
  cases v with
  | bool b => rfl
  | int i => exact congrArg (Option.map int) (NumberLiteral.int?_ofInt h)
  | string s => rfl

theorem Program.ofJson?_toJson {p : Program} (h : p.InRange)
    (hd : ∀ f ∈ p.functions, ∀ op ∈ f.operands, op.Respelled) :
    ofJson? positional p.toJson = some p := by
  have fields : Fields.read? ["name", "functions", "flags", "next_value"] p.toJson = some ⟨true,
    [("name", .string p.name), ("functions", .ofList Function.toJson p.functions),
      ("flags", p.flags.toJson FlagValue.toJson), ("next_value", .nat p.nextValue)]⟩ := rfl
  have functions : Document.listOf? (Function.ofJson? positional)
      (Json.ofList Function.toJson p.functions) = some p.functions :=
    Document.listOf?_ofList fun f hf => Function.ofJson?_toJson (h.functions f hf) (hd f hf)
  have flags : SortedMap.ofJson? FlagValue.ofJson? (p.flags.toJson FlagValue.toJson) =
      some p.flags :=
    SortedMap.ofJson?_toJson fun e he => FlagValue.ofJson?_toJson (h.flags e he)
  have nextValue : Document.nat? numberLimit (Json.nat p.nextValue) = some p.nextValue :=
    NumberLiteral.nat?_ofInt h.nextValue
  simp [ofJson?, fields, Fields.required?, Fields.withDefault?, List.lookup_cons,
    Document.string?_string, functions, flags, nextValue]

/-! ## The text -/

theorem ValueId.written_toJson (v : ValueId) : v.toJson.Written := Json.written_nat v.number

theorem BlockId.written_toJson (b : BlockId) : b.toJson.Written := Json.written_nat b.number

theorem Ty.written_toJson (t : Ty) : t.toJson.Written := .string t.dataName

theorem Operand.written_toJson (o : Operand) : o.toJson.Written := by
  cases o with
  | value v => exact Json.written_choice v.written_toJson
  | qubit a => exact Json.written_choice (Json.written_nat a)
  | result a => exact Json.written_choice (Json.written_nat a)
  | int i => exact Json.written_choice (Json.written_int i)
  | bool b => exact Json.written_choice (.bool b)
  | double d => exact Json.written_choice (.number (NumberLiteral.written_ofDouble d))
  | null => exact .string "null"

theorem Operation.written_toJson (o : Operation) : o.toJson.Written := by
  cases o with
  | call callee args =>
    refine Json.written_choice (.object ?_)
    simp [Json.Written.string, Json.written_ofList Operand.written_toJson]
  | copy source => exact Json.written_choice (Json.written_choice source.written_toJson)
  | phi incoming =>
    refine Json.written_choice (Json.written_choice (Json.written_ofList (fun e => .array ?_) _))
    simp [BlockId.written_toJson, Operand.written_toJson]

theorem Instruction.written_toJson (i : Instruction) : i.toJson.Written := by
  refine .object ?_
  simp [Json.written_ofOption ValueId.written_toJson, Ty.written_toJson,
    i.operation.written_toJson]

theorem Terminator.written_toJson (t : Terminator) : t.toJson.Written := by
  cases t with
  | ret value => exact Json.written_choice (Json.written_ofOption Operand.written_toJson value)
  | branch target => exact Json.written_choice target.written_toJson
  | condBranch condition thenBlock elseBlock =>
    refine Json.written_choice (.object ?_)
    simp [condition.written_toJson, BlockId.written_toJson]
  | unreachable => exact .string "unreachable"

theorem Block.written_toJson (b : Block) : b.toJson.Written := by
  refine .object ?_
  simp [BlockId.written_toJson, Json.Written.string,
    Json.written_ofList Instruction.written_toJson,
    Json.written_ofOption Terminator.written_toJson]

theorem Param.written_toJson (p : Param) : p.toJson.Written := by
  refine .object ?_
  simp [ValueId.written_toJson, Ty.written_toJson]

theorem Function.written_toJson (f : Function) : f.toJson.Written := by
  refine .object ?_
  simp [Json.Written.string, Json.written_ofList Param.written_toJson,
    Json.written_ofList Ty.written_toJson, Ty.written_toJson,
    Json.written_ofList Block.written_toJson, SortedMap.written_toJson Json.Written.string]

theorem FlagValue.written_toJson (v : FlagValue) : v.toJson.Written := by
  cases v with
  | bool b => exact .bool b
  | int i => exact Json.written_int i
  | string s => exact .string s

/-- **A text can spell the form of every program.** -/
theorem Program.written_toJson (p : Program) : p.toJson.Written := by
  refine .object ?_
  simp [Json.Written.string, Json.written_ofList Function.written_toJson,
    SortedMap.written_toJson FlagValue.written_toJson, Json.written_nat]

/-- **The JSON form of a program loses nothing.** Its text is read back as the same
program, and so is the form itself, whether fields may be spelled by position or not. -/
theorem Program.ofText?_render {p : Program} (h : p.InRange)
    (hd : ∀ f ∈ p.functions, ∀ op ∈ f.operands, op.Respelled) :
    ofText? p.toJson.render = some p ∧ ∀ positional, ofJson? positional p.toJson = some p := by
  refine ⟨?_, fun positional => ofJson?_toJson h hd⟩
  rw [ofText?, p.written_toJson.read?_render]
  exact ofJson?_toJson h hd

/-! ## A program with a bit of everything -/

namespace Program

/-- A program that has every kind of operand, operation, terminator and flag, a block
without a terminator, and next value numbers to issue. -/
def assorted : Program where
  name := "assorted \"program\"\n"
  functions := [
    { name := "main"
      params := [⟨⟨0⟩, .bool⟩]
      signature := [.bool]
      returnType := .double
      blocks := [
        ⟨⟨0⟩, "entry", [
          ⟨none, .void, .call "f" [.value ⟨0⟩, .qubit 18446744073709551615, .result 2,
            .int (-9223372036854775808), .bool true, .double ⟨0x3FE0000000000000⟩, .null]⟩,
          ⟨some ⟨1⟩, .double, .copy (.double ⟨0x8000000000000000⟩)⟩],
          some (.condBranch (.value ⟨0⟩) ⟨1⟩ ⟨2⟩)⟩,
        ⟨⟨1⟩, "join", [⟨some ⟨2⟩, .bool, .phi [(⟨0⟩, .null), (⟨3⟩, .bool false)]⟩],
          some (.ret none)⟩,
        ⟨⟨2⟩, "null", [], some (.ret (some .null))⟩,
        ⟨⟨3⟩, "back", [], some (.branch ⟨1⟩)⟩,
        ⟨⟨4⟩, "dead", [], some .unreachable⟩,
        ⟨⟨5⟩, "open", [], none⟩]
      attributes := SortedMap.empty.insert Function.entryPointAttribute "" },
    .declaration "f" [.bool, .qubit, .result, .int, .bool, .double, .array] .void]
  flags := ((SortedMap.empty.insert "text" (.string "1")).insert "truth" (.bool true)).insert
    "number" (.int 1)
  nextValue := 9

theorem ofText?_assorted :
    assorted.InRange ∧ (∀ f ∈ assorted.functions, ∀ op ∈ f.operands, op.Respelled) ∧
      ofText? assorted.toJson.render = some assorted := by
  have inRange : assorted.InRange := by decide +kernel
  have respelled : ∀ f ∈ assorted.functions, ∀ op ∈ f.operands, op.Respelled := by
    decide +kernel
  exact ⟨inRange, respelled, (ofText?_render inRange respelled).1⟩

end Program

end QuantumLowering
