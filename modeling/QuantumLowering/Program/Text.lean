import QuantumLowering.Program.Basic
/-!
# The text of a program

Programs are shown as one line for the name, one for each flag and
declaration, and for each definition its head, its blocks and a closing
brace. Every line ends with a line break.
-/


namespace QuantumLowering

namespace Instruction

/-- The line of an instruction. -/
def text (i : Instruction) : String :=
  let result := match i.result with
    | some v => v.text ++ " = "
    | none => ""
  let body := match i.operation with
    | .call callee args =>
      "call " ++ i.type.text ++ " @" ++ callee ++ "(" ++
        ", ".intercalate (args.map Operand.text) ++ ")"
    | .copy source => "copy " ++ i.type.text ++ " " ++ source.text
    | .phi incoming =>
      "phi " ++ i.type.text ++ " " ++
        ", ".intercalate (incoming.map fun e => "[" ++ e.2.text ++ ", " ++ e.1.text ++ "]")
  "  " ++ result ++ body

end Instruction

/-- The line of a terminator, or of its absence. -/
def Terminator.text : Option Terminator → String
  | some (.ret (some op)) => "  ret " ++ op.text
  | some (.ret none) => "  ret void"
  | some (.branch b) => "  br " ++ b.text
  | some (.condBranch condition thenBlock elseBlock) =>
    "  br " ++ condition.text ++ ", " ++ thenBlock.text ++ ", " ++ elseBlock.text
  | some .unreachable => "  unreachable"
  | none => "  ; <unterminated>"

/-- The lines of a block. -/
def Block.lines (b : Block) : List String :=
  (b.label ++ ":  ; " ++ b.id.text) :: (b.instructions.map Instruction.text ++
    [Terminator.text b.terminator])

namespace Function

/-- The attributes after the head of a definition. -/
def attributeText (f : Function) : String :=
  let attributes := f.attributes.entries.map fun e => "\"" ++ e.1 ++ "\"=\"" ++ e.2 ++ "\""
  if attributes.isEmpty then "" else " ; " ++ " ".intercalate attributes

/-- The return type, the name and the parameters of a function. -/
def headText (f : Function) (params : List String) : String :=
  f.returnType.text ++ " @" ++ f.name ++ "(" ++ ", ".intercalate params ++ ")"

/-- The lines of a function. -/
def lines (f : Function) : List String :=
  if f.isDeclaration then ["declare " ++ f.headText (f.signature.map Ty.text)]
  else
    let params := f.params.map fun p => p.type.text ++ " " ++ p.value.text
    ("define " ++ f.headText params ++ " \x7b" ++ f.attributeText) ::
      (f.blocks.flatMap Block.lines ++ ["\x7d"])

end Function

namespace Program

/-- The lines of a program. -/
def lines (p : Program) : List String :=
  ("; module " ++ p.name) ::
    (p.flags.entries.map (fun e => "!flag " ++ e.1 ++ " = " ++ e.2.text) ++
      p.functions.flatMap Function.lines)

/-- The text of a program. -/
def text (p : Program) : String := String.join (p.lines.map (· ++ "\n"))

end Program

end QuantumLowering
