import QuantumLowering.Document
import QuantumLowering.Json.Reader
import QuantumLowering.Program.Basic
/-!
# Programs as JSON

Records are objects, lists are arrays, names of values and blocks are
bare numbers. A choice with data is an object with one member named for
the choice; a choice without data is a string. A program text may spell
the fields of a choice by position, as a list; a JSON value taken from
elsewhere has to name them. The decoders of choices with fields are told
which it is (`positional`).
-/


namespace QuantumLowering

namespace ValueId

/-- The JSON form of a value. -/
def toJson (v : ValueId) : Json := .nat v.number

/-- The value of a JSON form. -/
def ofJson? (j : Json) : Option ValueId := (Document.nat? numberLimit j).map .mk

end ValueId

namespace BlockId

/-- The JSON form of a block name. -/
def toJson (b : BlockId) : Json := .nat b.number

/-- The block name of a JSON form. -/
def ofJson? (j : Json) : Option BlockId := (Document.nat? numberLimit j).map .mk

end BlockId

namespace Ty

/-- The name of a type as data. -/
def dataName : Ty → String
  | void => "void"
  | qubit => "qubit"
  | result => "result"
  | array => "array"
  | int => "int"
  | bool => "bool"
  | double => "double"

/-- The types. -/
def all : List Ty := [void, qubit, result, array, int, bool, double]

/-- The type of a name. -/
def ofDataName? (s : String) : Option Ty := all.find? fun t => t.dataName = s

/-- The JSON form of a type. -/
def toJson (t : Ty) : Json := .string t.dataName

/-- The type of a JSON form. -/
def ofJson? (j : Json) : Option Ty := (Document.choice? j).bind ofDataName?

end Ty

namespace Operand

/-- The JSON form of an operand. -/
def toJson : Operand → Json
  | value v => .object [("value", v.toJson)]
  | qubit a => .object [("qubit", .nat a)]
  | result a => .object [("result", .nat a)]
  | int i => .object [("int", .int i)]
  | bool b => .object [("bool", .bool b)]
  | double d => .object [("double", .double d)]
  | null => .string "null"

/-- The operand of a choice and its data. -/
def ofChoice? (choice : String) (data : Json) : Option Operand :=
  match choice with
  | "value" => (ValueId.ofJson? data).map value
  | "qubit" => (Document.nat? addressLimit data).map qubit
  | "result" => (Document.nat? addressLimit data).map result
  | "int" =>
    match data with
    | .number n => n.int?.map int
    | _ => none
  | "bool" => (Document.bool? data).map bool
  | "double" =>
    match data with
    | .number n => n.double?.map double
    | _ => none
  | "null" => if data.isNull then some null else none
  | _ => none

/-- The operand of a JSON form. -/
def ofJson? : Json → Option Operand
  | .string s => if s = "null" then some null else none
  | .object [(choice, data)] => ofChoice? choice data
  | _ => none

end Operand

namespace Operation

/-- The JSON form of a phi's operand and its block. -/
def incomingToJson (e : BlockId × Operand) : Json := .array [e.1.toJson, e.2.toJson]

/-- A phi's operand and its block. -/
def incomingOfJson? : Json → Option (BlockId × Operand)
  | .array [b, op] => do pure (← BlockId.ofJson? b, ← Operand.ofJson? op)
  | _ => none

/-- The JSON form of what an instruction does. -/
def toJson : Operation → Json
  | call callee args =>
    .object [("call", .object [("callee", .string callee), ("args", .ofList Operand.toJson args)])]
  | copy source => .object [("copy", .object [("source", source.toJson)])]
  | phi incoming => .object [("phi", .object [("incoming", .ofList incomingToJson incoming)])]

/-- What an instruction does, from its JSON form. -/
def ofJson? (positional : Bool) : Json → Option Operation
  | .object [("call", data)] => do
    let fields ← Fields.ofChoice? positional ["callee", "args"] data
    let callee ← fields.required? "callee" Document.string?
    let args ← fields.required? "args" (Document.listOf? Operand.ofJson?)
    pure (call callee args)
  | .object [("copy", data)] => do
    let fields ← Fields.ofChoice? positional ["source"] data
    pure (copy (← fields.required? "source" Operand.ofJson?))
  | .object [("phi", data)] => do
    let fields ← Fields.ofChoice? positional ["incoming"] data
    pure (phi (← fields.required? "incoming" (Document.listOf? incomingOfJson?)))
  | _ => none

end Operation

namespace Instruction

/-- The JSON form of an instruction. -/
def toJson (i : Instruction) : Json :=
  .object [("result", .ofOption ValueId.toJson i.result), ("ty", i.type.toJson),
    ("kind", i.operation.toJson)]

/-- The instruction of a JSON form. -/
def ofJson? (positional : Bool) (j : Json) : Option Instruction := do
  let fields ← Fields.read? ["result", "ty", "kind"] j
  let result ← fields.nullable? "result" ValueId.ofJson?
  let type ← fields.required? "ty" Ty.ofJson?
  let operation ← fields.required? "kind" (Operation.ofJson? positional)
  pure ⟨result, type, operation⟩

end Instruction

namespace Terminator

/-- The JSON form of a terminator. -/
def toJson : Terminator → Json
  | ret value => .object [("return", .ofOption Operand.toJson value)]
  | branch target => .object [("branch", target.toJson)]
  | condBranch condition thenBlock elseBlock =>
    .object [("cond_branch", .object [("condition", condition.toJson),
      ("then_block", thenBlock.toJson), ("else_block", elseBlock.toJson)])]
  | unreachable => .string "unreachable"

/-- The terminator of a JSON form. -/
def ofJson? (positional : Bool) : Json → Option Terminator
  | .string s => if s = "unreachable" then some unreachable else none
  | .object [("return", data)] => (Document.nullable? Operand.ofJson? data).map ret
  | .object [("branch", data)] => (BlockId.ofJson? data).map branch
  | .object [("cond_branch", data)] => do
    let fields ← Fields.ofChoice? positional ["condition", "then_block", "else_block"] data
    let condition ← fields.required? "condition" Operand.ofJson?
    let thenBlock ← fields.required? "then_block" BlockId.ofJson?
    let elseBlock ← fields.required? "else_block" BlockId.ofJson?
    pure (condBranch condition thenBlock elseBlock)
  | .object [("unreachable", data)] => if data.isNull then some unreachable else none
  | _ => none

end Terminator

namespace Block

/-- The JSON form of a block. -/
def toJson (b : Block) : Json :=
  .object [("id", b.id.toJson), ("label", .string b.label),
    ("instructions", .ofList Instruction.toJson b.instructions),
    ("terminator", .ofOption Terminator.toJson b.terminator)]

/-- The block of a JSON form. -/
def ofJson? (positional : Bool) (j : Json) : Option Block := do
  let fields ← Fields.read? ["id", "label", "instructions", "terminator"] j
  let id ← fields.required? "id" BlockId.ofJson?
  let label ← fields.required? "label" Document.string?
  let instructions ← fields.required? "instructions"
    (Document.listOf? (Instruction.ofJson? positional))
  let terminator ← fields.nullable? "terminator" (Terminator.ofJson? positional)
  pure ⟨id, label, instructions, terminator⟩

end Block

namespace Param

/-- The JSON form of a parameter. -/
def toJson (p : Param) : Json := .object [("value", p.value.toJson), ("ty", p.type.toJson)]

/-- The parameter of a JSON form. -/
def ofJson? (j : Json) : Option Param := do
  let fields ← Fields.read? ["value", "ty"] j
  pure ⟨← fields.required? "value" ValueId.ofJson?, ← fields.required? "ty" Ty.ofJson?⟩

end Param

/-- The JSON form of a map from names. -/
def SortedMap.toJson {ν : Type} (encode : ν → Json) (m : SortedMap String ν) : Json :=
  .object (m.entries.map fun e => (e.1, encode e.2))

/-- The map of a JSON form. Of a repeated name the last binding counts. -/
def SortedMap.ofJson? {ν : Type} (decode : Json → Option ν) (j : Json) :
    Option (SortedMap String ν) := do
  let members ← Document.members? j
  let entries ← members.mapM fun m => (decode m.2).map fun v => (m.1, v)
  pure (.ofList entries)

namespace Function

/-- The JSON form of a function. -/
def toJson (f : Function) : Json :=
  .object [("name", .string f.name), ("params", .ofList Param.toJson f.params),
    ("signature", .ofList Ty.toJson f.signature), ("return_type", f.returnType.toJson),
    ("blocks", .ofList Block.toJson f.blocks), ("attributes", f.attributes.toJson .string)]

/-- The function of a JSON form. -/
def ofJson? (positional : Bool) (j : Json) : Option Function := do
  let fields ← Fields.read? ["name", "params", "signature", "return_type", "blocks",
    "attributes"] j
  let name ← fields.required? "name" Document.string?
  let params ← fields.required? "params" (Document.listOf? Param.ofJson?)
  let signature ← fields.withDefault? "signature" [] (Document.listOf? Ty.ofJson?)
  let returnType ← fields.required? "return_type" Ty.ofJson?
  let blocks ← fields.withDefault? "blocks" [] (Document.listOf? (Block.ofJson? positional))
  let attributes ← fields.withDefault? "attributes" .empty (SortedMap.ofJson? Document.string?)
  pure ⟨name, params, signature, returnType, blocks, attributes⟩

end Function

namespace FlagValue

/-- The JSON form of a flag's value. -/
def toJson : FlagValue → Json
  | bool b => .bool b
  | int i => .int i
  | string s => .string s

/-- The flag value of a JSON form. -/
def ofJson? : Json → Option FlagValue
  | .bool b => some (bool b)
  | .number n => n.int?.map int
  | .string s => some (string s)
  | _ => none

end FlagValue

namespace Program

/-- The JSON form of a program. -/
def toJson (p : Program) : Json :=
  .object [("name", .string p.name), ("functions", .ofList Function.toJson p.functions),
    ("flags", p.flags.toJson FlagValue.toJson), ("next_value", .nat p.nextValue)]

/-- The program of a JSON form. -/
def ofJson? (positional : Bool) (j : Json) : Option Program := do
  let fields ← Fields.read? ["name", "functions", "flags", "next_value"] j
  let name ← fields.required? "name" Document.string?
  let functions ← fields.required? "functions" (Document.listOf? (Function.ofJson? positional))
  let flags ← fields.withDefault? "flags" .empty (SortedMap.ofJson? FlagValue.ofJson?)
  let nextValue ← fields.withDefault? "next_value" 0 (Document.nat? numberLimit)
  pure ⟨name, functions, flags, nextValue⟩

/-- The program of a JSON text. -/
def ofText? (text : String) : Option Program := (Json.read? text).bind (ofJson? true)

end Program

end QuantumLowering
