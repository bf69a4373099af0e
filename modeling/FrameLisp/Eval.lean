/-
FrameLisp/Eval.lean

Evaluation.

A run works on a machine, the heap of frames together with the text printed so
far, and ends with a value or stops early; either way the machine it leaves is what
later runs go on with.  `eval` recurses on the nesting it is still allowed: it enters
sub-expressions and the bodies of closures with one less, and stops as too deep when
nothing is left.  So it is a total function, also of programs that call themselves
without end.
-/
import FrameLisp.Heap.Basic
import FrameLisp.Primitive

namespace FrameLisp

/-- What evaluation changes: the frames, and the text printed so far. -/
structure Machine where
  heap : Heap := {}
  printed : String := ""

/-- A run: it may stop early, and leaves a machine in any case. -/
abbrev EvalM := ExceptT Stop (StateM Machine)

namespace EvalM

/-! ### Steps on the machine -/

/-- Stop by a fault. -/
def fail {α : Type} (cause : Fault) : EvalM α := throw (.fault cause)

/-- Change the heap. -/
def onHeap (change : Heap → Heap) : EvalM Unit :=
  modify fun m => { m with heap := change m.heap }

/-- The value of a name as seen from the frame `f`. -/
def lookup (f : FrameId) (name : String) : EvalM Expr := do
  match (← get).heap.lookup f name with
  | .ok value => return value
  | .error cause => fail cause

/-- Make a closure in the frame `f`, with an identity of its own. -/
def makeClosure (f : FrameId) (params : List String) (body : Expr) : EvalM Expr := do
  let identity := (← get).heap.closures
  onHeap Heap.countClosure
  return .closure identity params body f

/-- Add the frame of a call and give its number. -/
def enter (captured : FrameId) (params : List String) (args : List Expr) : EvalM FrameId := do
  onHeap fun h => h.enter captured params args
  return (← get).heap.newest

/-- Call a primitive and print what it prints. -/
def callPrimitive (p : Primitive) (args : List Expr) : EvalM Expr := do
  match p.call args with
  | .ok (value, text) =>
      modify fun m => { m with printed := m.printed ++ text }
      return value
  | .error stop => throw stop

/-- Apply a procedure to arguments; `evalBody` evaluates the body of a closure. -/
def apply (evalBody : FrameId → Expr → EvalM Expr) (procedure : Expr) (args : List Expr) :
    EvalM Expr :=
  match procedure with
  | .native p => callPrimitive p args
  | .closure identity params body captured =>
      if args.length = params.length then do
        let f ← enter captured params args
        evalBody f body
      else
        fail (.closureArity (.closure identity params body captured) params.length args.length)
  | v => fail (.notProcedure v)

end EvalM

open EvalM in
/-- Evaluate an expression in the frame `f`, nesting at most `limit` deep.  A special
form is carried out at the head of a list, whatever follows it there. -/
def eval : (limit : Nat) → (f : FrameId) → Expr → EvalM Expr
  | 0, _, _ => throw .tooDeep
  | limit + 1, f, e =>
      match e with
      | .nil => return .nil
      | .number x => return .number x
      | .text s => return .text s
      | .symbol name => lookup f name
      | .quote content => return content
      | .list [] => fail .emptyForm
      | .list (.define name expr :: _) => do
          let value ← eval limit f expr
          onHeap fun h => h.define f name value
          return .nil
      | .list (.assign name expr :: _) => do
          let value ← eval limit f expr
          onHeap fun h => h.assign f name value
          return .nil
      | .list (.lambda params body :: _) => makeClosure f params body
      | .list (.cond test consequent alternative :: _) => do
          match ← eval limit f test with
          | .number x => if x != 0.0 then eval limit f consequent else eval limit f alternative
          | v => fail (.testNotNumber v)
      | .list (.quote content :: _) => return content
      | .list (head :: args) => do
          let procedure ← eval limit f head
          let values ← args.mapM (eval limit f)
          apply (eval limit) procedure values
      | v => fail (.notEvaluable v)

end FrameLisp
