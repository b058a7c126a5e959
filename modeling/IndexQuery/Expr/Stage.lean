/-
# Stages of a chain

A chain arrives as nested calls, the stage chained last outermost, each call holding the chain
before it as its first argument.  `Expr.stages` lists the calls from the outside in, each as a
stage: its name and its arguments without the chain.  The list ends at the first receiver that is
not a call.

`Expr.stages` is `unwind`, and a stage is a `StageCall` with its `arg` and `count_arg`.
-/
import IndexQuery.Expr.Field

namespace IndexQuery

/-- A call of a chain, without its receiver. -/
structure Stage where
  name : String
  args : List Expr

namespace Stage

/-- The argument at an index from zero; messages count from one. -/
def arg (s : Stage) (i : Nat) : Compiled Expr :=
  match s.args[i]? with
  | some e => .ok e
  | none => .error (.invalidArgument s.name (.missing (i + 1)))

/-- A constant argument that is a natural number. -/
def countArg (s : Stage) (i : Nat) : Compiled UInt64 := do
  let value ← (← s.arg i).constantOperand
  match value.uint64? with
  | some n => .ok n
  | none => .error (.invalidArgument s.name .notCount)

end Stage

namespace Expr

/-- The stages of a chain, outermost first. -/
def stages : Expr → List Stage
  | call name [] => [⟨name, []⟩]
  | call name (receiver :: args) => ⟨name, args⟩ :: receiver.stages
  | _ => []
termination_by structural e => e

/-- The chain of stages on a root, the first stage innermost. -/
def chainAll (root : Expr) (ss : List Stage) : Expr :=
  ss.foldl (fun e s => e.chain s.name s.args) root

end Expr

end IndexQuery
