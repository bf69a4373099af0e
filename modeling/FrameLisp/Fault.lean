/-
FrameLisp/Fault.lean

What can go wrong.  Every failure is a cause with the values it is about; its kind
and its wording are functions of the cause, so nothing in the library compares or
assembles messages.

A run can end early in three ways, kept apart in `Stop`: by a fault of the program,
by a request to exit, or because it nests deeper than its limit allows.
-/
import FrameLisp.Expr.Render

namespace FrameLisp

/-! ### Faults of the program text -/

/-- Why tokens could not be read. -/
inductive ReadFault where
  /-- The tokens end inside an expression. -/
  | endOfInput
  /-- A closing parenthesis that nothing opened. -/
  | strayClosing
  /-- A token that starts with a double quote and does not end with another one. -/
  | unterminatedText (token : String)
  /-- A parenthesis where `form` needs a name. -/
  | nameExpected (form token : String)
  /-- A `lambda` that does not go on with a parameter list. -/
  | parametersExpected (token : String)
  /-- A parenthesis inside a parameter list. -/
  | nestedParameter
  /-- A second item in a list that starts with a special form. -/
  | afterForm (token : String) (form : Expr)
  /-- More tokens after the only expression. -/
  | trailing (token : String)

/-- The wording of a read fault. -/
def ReadFault.message : ReadFault → String
  | .endOfInput => "Unexpected end of input"
  | .strayClosing => "Unexpected ) token"
  | .unterminatedText token => "Unterminated string literal: " ++ token
  | .nameExpected form token => form ++ " expects a name, got '" ++ token ++ "'"
  | .parametersExpected token =>
      "lambda expected '(' to open its parameter list, got '" ++ token ++ "'"
  | .nestedParameter => "lambda parameters must be bare names"
  | .afterForm token form =>
      "Unexpected '" ++ token ++ "' after special form (" ++ form.render ++ ")"
  | .trailing token => "Unexpected input after expression: '" ++ token ++ "'"

/-! ### Faults of a run -/

/-- Why a program failed. -/
inductive Fault where
  /-- Its text could not be read. -/
  | unreadable (cause : ReadFault)
  /-- A primitive on numbers was given something else. -/
  | notNumber (primitive : Primitive) (value : Expr)
  /-- A primitive on lists was given something else. -/
  | notList (primitive : Primitive) (value : Expr)
  /-- The length of something that is not text was asked for. -/
  | notText (value : Expr)
  /-- The test of a conditional is not a number. -/
  | testNotNumber (value : Expr)
  /-- A status to exit with that is not a finite number. -/
  | statusNotFinite (status : Float)
  /-- A primitive that needs an argument was given none. -/
  | noArguments (primitive : Primitive)
  /-- A primitive was given the wrong number of arguments. -/
  | argumentCount (primitive : Primitive) (expected got : Nat)
  /-- A closure was given the wrong number of arguments. -/
  | closureArity (closure : Expr) (expected got : Nat)
  /-- Something that is not a procedure was applied. -/
  | notProcedure (value : Expr)
  /-- A name that no visible frame binds. -/
  | unbound (name : String)
  /-- The empty list was evaluated. -/
  | emptyForm
  /-- A procedure, or a special form outside a list, was evaluated. -/
  | notEvaluable (value : Expr)

/-- The wording of a fault. -/
def Fault.message : Fault → String
  | .unreadable cause => cause.message
  | .notNumber p v => p.name ++ " expects numbers, got " ++ v.render
  | .notList p v => p.name ++ " expects a list, got " ++ v.render
  | .notText v => "string-length expects a string, got " ++ v.render
  | .testNotNumber v => "if test must be a number, got " ++ v.render
  | .statusNotFinite x => "exit expects a finite status code, got " ++ Number.text x
  | .noArguments p => p.name ++ " requires at least 1 argument"
  | .argumentCount p expected got =>
      p.name ++ " requires exactly " ++ toString expected ++
        (if expected = 1 then " argument" else " arguments") ++ ", got " ++ toString got
  | .closureArity closure expected got =>
      closure.render ++ " expected " ++ toString expected ++ " argument(s), got " ++ toString got
  | .notProcedure v => "eval: " ++ v.render ++ " is not a procedure"
  | .unbound name => "Cannot lookup unbound symbol " ++ name
  | .emptyForm => "Cannot evaluate an empty form ()"
  | .notEvaluable v => "Cannot evaluate " ++ v.render

/-- The kinds that faults are reported under. -/
inductive FaultKind where
  | reading
  | type
  | arity
  | notProcedure
  | unbound
  | evaluation
  deriving DecidableEq

/-- The kind of a fault. -/
def Fault.kind : Fault → FaultKind
  | .unreadable _ => .reading
  | .notNumber .. => .type
  | .notList .. => .type
  | .notText _ => .type
  | .testNotNumber _ => .type
  | .statusNotFinite _ => .type
  | .noArguments _ => .arity
  | .argumentCount .. => .arity
  | .closureArity .. => .arity
  | .notProcedure _ => .notProcedure
  | .unbound _ => .unbound
  | .emptyForm => .evaluation
  | .notEvaluable _ => .evaluation

/-- The name of a kind in reports. -/
def FaultKind.name : FaultKind → String
  | .reading => "KlispSyntaxError"
  | .type => "KlispTypeError"
  | .arity => "KlispArityError"
  | .notProcedure => "KlispNotAProcedure"
  | .unbound => "KlispUnboundSymbol"
  | .evaluation => "KlispEvaluationError"

/-! ### Early ends -/

/-- Why reading stopped early. -/
inductive ReadStop where
  | fault (cause : ReadFault)
  /-- Expressions nest deeper than the limit. -/
  | tooDeep

/-- Why a run stopped early. -/
inductive Stop where
  | fault (cause : Fault)
  /-- The program asked to exit with a status. -/
  | exit (status : Int)
  /-- Evaluation or reading nests deeper than the limit. -/
  | tooDeep

/-- A stop of reading as a stop of the run it belongs to. -/
def ReadStop.toStop : ReadStop → Stop
  | .fault cause => .fault (.unreadable cause)
  | .tooDeep => .tooDeep

end FrameLisp
