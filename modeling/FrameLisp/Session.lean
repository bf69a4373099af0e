/-
FrameLisp/Session.lean

Sessions: a heap that lives on from one piece of program text to the next.

A buffer of text is read as a whole before any of it is evaluated, so a buffer that
cannot be read has no effect.  Its expressions are then evaluated one after the
other in the global frame, up to the first that does not give a value; what was
done until then stays done.  The reply to a buffer has the value of its last
expression, or the reason for stopping, and beside it the text that was printed and
a trace of what was evaluated.
-/
import FrameLisp.Eval
import FrameLisp.Expr.Read
import FrameLisp.Heap.Render
import FrameLisp.Settings
import FrameLisp.Text.Utf8

namespace FrameLisp

/-- A session: its frames, and how deep reading and evaluation may nest. -/
structure Session where
  heap : Heap := {}
  limit : Nat := maxNesting

/-- One entry of a trace. -/
inductive TraceEntry where
  /-- An expression is about to be evaluated. -/
  | parsed (expr : Expr)
  /-- Its value. -/
  | result (value : Expr)

/-- The text of a trace entry. -/
def TraceEntry.message : TraceEntry → String
  | .parsed e => "parsed " ++ e.render
  | .result v => "result " ++ v.render

/-- What a session answers to a request, with the session to go on with. -/
structure Reply where
  outcome : Except Stop Expr
  session : Session
  printed : String := ""
  trace : List TraceEntry := []

namespace Session

/-- The number of the global frame, the first one made. -/
def globalFrame : FrameId := 0

/-- A new session: the global frame holds the primitives and constants. -/
def start (p : Policies) (limit : Nat) : Session :=
  { heap := (Heap.newFrame {} none p).defineAll globalFrame standardBindings
    limit := limit }

/-- Carry out a run on the heap of the session. -/
def run (s : Session) (action : EvalM Expr) : Reply :=
  let r := action.run.run { heap := s.heap }
  { outcome := r.1, session := { s with heap := r.2.heap }, printed := r.2.printed }

/-- Evaluate an expression in the global frame. -/
def evalExpr (s : Session) (e : Expr) : Reply := s.run (eval s.limit globalFrame e)

/-- Evaluate expressions one after the other; without any, the value is `last`. -/
def evalRoots (s : Session) (last : Expr) : List Expr → Reply
  | [] => { outcome := .ok last, session := s }
  | e :: rest =>
      let reply := s.evalExpr e
      match reply.outcome with
      | .error stop => { reply with outcome := .error stop, trace := [.parsed e] }
      | .ok value =>
          let later := reply.session.evalRoots value rest
          { later with
            printed := reply.printed ++ later.printed
            trace := .parsed e :: .result value :: later.trace }

/-- Evaluate a buffer. -/
def eval (s : Session) (source : String) : Reply :=
  match readAll s.limit source with
  | .ok roots => s.evalRoots .nil roots
  | .error stop => { outcome := .error stop.toStop, session := s }

/-- Evaluate a buffer that consists of one expression. -/
def evalOne (s : Session) (source : String) : Reply :=
  match readOne s.limit source with
  | .ok e => s.evalExpr e
  | .error stop => { outcome := .error stop.toStop, session := s }

/-- Evaluate the value of a global name once more, as an expression. -/
def evalValueOf (s : Session) (name : String) : Reply :=
  s.run do
    let value ← EvalM.lookup globalFrame name
    FrameLisp.eval s.limit globalFrame value

/-- Evaluate the bytes of a file as a buffer. -/
def load (s : Session) (bytes : List UInt8) : Except Text.DecodeError Reply :=
  (Text.ofBytes bytes).map s.eval

/-! ### Frames a closure sees -/

/-- The frame a closure captured, as text. -/
def capturedFrame? (s : Session) : Expr → Option String
  | .closure _ _ _ frame => some (s.heap.render frame)
  | _ => none

/-- The frames a closure sees, as text, innermost first and without the global one. -/
def visibleFrames (s : Session) : Expr → List String
  | .closure _ _ _ frame =>
      ((s.heap.chain frame).filter (· ≠ globalFrame)).map s.heap.render
  | _ => []

end Session

end FrameLisp
