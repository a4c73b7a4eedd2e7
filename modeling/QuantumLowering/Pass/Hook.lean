import QuantumLowering.Failure
/-!
# Hooks

A pipeline has a fixed sequence of hooks at which passes can be put. The
passes at a hook run before those at any later hook.
-/


namespace QuantumLowering

/-- A place in the pipeline, in running order. -/
inductive Hook where
  /-- Before everything else. -/
  | pipelineStart
  /-- With the small clean-ups. -/
  | peephole
  /-- Late among the loop optimizations. -/
  | lateLoopOptimizations
  /-- After the loop optimizations. -/
  | loopOptimizerEnd
  /-- Late among the scalar optimizations. -/
  | scalarOptimizerLate
  /-- Late among the optimizations of mutually recursive functions. -/
  | callGraphOptimizerLate
  /-- Before vectorization. -/
  | vectorizerStart
  /-- After everything else. -/
  | optimizerLast
deriving DecidableEq

namespace Hook

/-- The hooks in running order. -/
def all : List Hook :=
  [pipelineStart, peephole, lateLoopOptimizations, loopOptimizerEnd, scalarOptimizerLate,
    callGraphOptimizerLate, vectorizerStart, optimizerLast]

/-- The name of a hook. -/
def name : Hook → String
  | pipelineStart => "pipeline-start"
  | peephole => "peephole"
  | lateLoopOptimizations => "late-loop-optimizations"
  | loopOptimizerEnd => "loop-optimizer-end"
  | scalarOptimizerLate => "scalar-optimizer-late"
  | callGraphOptimizerLate => "cgscc-optimizer-late"
  | vectorizerStart => "vectorizer-start"
  | optimizerLast => "optimizer-last"

/-- The hook of a name. -/
def ofName? (s : String) : Option Hook := all.find? fun h => h.name = s

/-- The hook of a name, or that there is none. -/
def ofName (s : String) : Except Failure Hook :=
  match ofName? s with
  | some h => .ok h
  | none => .error (.configuration ("unknown extension point '" ++ s ++ "'"))

/-- The inspection text of a hook. -/
def inspect : Hook → String
  | pipelineStart => "PipelineStart"
  | peephole => "Peephole"
  | lateLoopOptimizations => "LateLoopOptimizations"
  | loopOptimizerEnd => "LoopOptimizerEnd"
  | scalarOptimizerLate => "ScalarOptimizerLate"
  | callGraphOptimizerLate => "CGSCCOptimizerLate"
  | vectorizerStart => "VectorizerStart"
  | optimizerLast => "OptimizerLast"

end Hook

end QuantumLowering
