/-
FrameLisp/Expr/Render.lean

Expressions as text, in two ways.

`render` writes a value as a program would write it, except that text loses its
quotes: this is what results, printed values and messages show.  A list has each
item between blanks of its own.  `inspect` names every node and its fields.

The text of an expression is put together from the texts of its parts, and how deep
this may nest is limited where results are shown: `render?` gives no text for an
expression that does not fit.
-/
import FrameLisp.Expr.Basic
import FrameLisp.Number.Shortest
import FrameLisp.Text.Quoted

namespace FrameLisp.Expr

/-! ### Values as they are shown -/

/-- The parameters of a procedure between parentheses. -/
def renderParams (params : List String) : String :=
  "(" ++ " ".intercalate params ++ ")"

mutual

/-- The text of an expression. -/
def render : Expr → String
  | nil => "nil"
  | number x => Number.text x
  | text s => s
  | symbol name => name
  | list items => "(" ++ String.join (renderItems items) ++ ")"
  | define name e => "define " ++ name ++ " " ++ render e
  | assign name e => "set! " ++ name ++ " " ++ render e
  | lambda params body => "lambda " ++ renderParams params ++ " " ++ render body
  | cond a b c => "if " ++ render a ++ " " ++ render b ++ " " ++ render c
  | quote e => "'" ++ render e
  | native p => "<native " ++ p.name ++ ">"
  | closure _ params body _ => "(λ " ++ renderParams params ++ " " ++ render body ++ ")"

/-- The texts of the items of a list, each between blanks. -/
def renderItems : List Expr → List String
  | [] => []
  | e :: es => (" " ++ render e ++ " ") :: renderItems es

end

mutual

/-- Whether an expression can be written out nesting at most `limit` deep. -/
def fits : (limit : Nat) → Expr → Bool
  | 0, _ => false
  | limit + 1, list items => fitsItems limit items
  | limit + 1, define _ e => fits limit e
  | limit + 1, assign _ e => fits limit e
  | limit + 1, lambda _ body => fits limit body
  | limit + 1, cond a b c => fits limit a && fits limit b && fits limit c
  | limit + 1, quote e => fits limit e
  | limit + 1, closure _ _ body _ => fits limit body
  | _ + 1, _ => true

/-- Whether the items of a list can be. -/
def fitsItems (limit : Nat) : List Expr → Bool
  | [] => true
  | e :: es => fits limit e && fitsItems limit es

end

/-- The text of an expression, if writing it out nests at most `limit` deep. -/
def render? (limit : Nat) (e : Expr) : Option String :=
  if e.fits limit then some e.render else none

/-- The text of a value that is printed: text has its quotes here. -/
def display : Expr → String
  | text s => "\"" ++ s ++ "\""
  | e => render e

/-! ### Expressions node by node -/

/-- The parameters of a `lambda`, quoted and between parentheses; a single one is
followed by a comma. -/
def inspectParams : List String → String
  | [p] => "(" ++ Text.quoted p ++ ",)"
  | ps => "(" ++ ", ".intercalate (ps.map Text.quoted) ++ ")"

mutual

/-- The text of an expression with the kind and the fields of every node. -/
def inspect : Expr → String
  | nil => "nil"
  | number x => "Number(value=" ++ Number.text x ++ ")"
  | text s => "KString(value=" ++ Text.quoted s ++ ")"
  | symbol name => "Symbol(" ++ Text.quoted name ++ ")"
  | list items => "Sexpression(elements=[" ++ ", ".intercalate (inspectItems items) ++ "])"
  | define name e =>
      "Define(symbol=" ++ Text.quoted name ++ ", expression=" ++ inspect e ++ ")"
  | assign name e =>
      "Sets(symbol=" ++ Text.quoted name ++ ", expression=" ++ inspect e ++ ")"
  | lambda params body =>
      "Lambda(params=" ++ inspectParams params ++ ", body=" ++ inspect body ++ ")"
  | cond a b c =>
      "If(test=" ++ inspect a ++ ", consequent=" ++ inspect b ++ ", alternative=" ++
        inspect c ++ ")"
  | quote e => "Quote(expression=" ++ inspect e ++ ")"
  | native p => "NativeProcedure(" ++ Text.quoted p.name ++ ")"
  | closure i params body frame => render (closure i params body frame)

/-- The texts of the items of a list. -/
def inspectItems : List Expr → List String
  | [] => []
  | e :: es => inspect e :: inspectItems es

end

end FrameLisp.Expr
