/-
FrameLisp/Expr/Basic.lean

Expressions.  Programs, the data they work on and their results are all of one
type: reading gives expressions, `quote` hands them to the program as data, and
evaluation adds the two kinds of procedure, which no program text denotes.

Special forms are nodes of their own, recognised while reading.  A closure carries
the number of the frame it was made in and an identity: two closures are the same
only if they were made by the same execution of a `lambda`.
-/

namespace FrameLisp

/-! ### Primitive procedures -/

/-- The procedures every session starts with. -/
inductive Primitive where
  | sequence
  | exit
  | add
  | sub
  | mul
  | div
  | eq
  | le
  | ge
  | lt
  | gt
  | sin
  | cos
  | abs
  | pow
  | stringAppend
  | stringLength
  | list
  | car
  | cdr
  | cons
  | print
  deriving DecidableEq

/-- The name a primitive is bound to. -/
def Primitive.name : Primitive → String
  | .sequence => "begin"
  | .exit => "exit"
  | .add => "+"
  | .sub => "-"
  | .mul => "*"
  | .div => "/"
  | .eq => "="
  | .le => "<="
  | .ge => ">="
  | .lt => "<"
  | .gt => ">"
  | .sin => "sin"
  | .cos => "cos"
  | .abs => "abs"
  | .pow => "pow"
  | .stringAppend => "string-append"
  | .stringLength => "string-length"
  | .list => "list"
  | .car => "car"
  | .cdr => "cdr"
  | .cons => "cons"
  | .print => "print"

/-- All primitives, in the order in which they are bound. -/
def Primitive.all : List Primitive :=
  [.sequence, .exit, .add, .sub, .mul, .div, .eq, .le, .ge, .lt, .gt, .sin, .cos, .abs, .pow,
   .stringAppend, .stringLength, .list, .car, .cdr, .cons, .print]

/-- The primitive with a given name. -/
def Primitive.ofName? (name : String) : Option Primitive :=
  Primitive.all.find? fun p => p.name == name

/-! ### Expressions -/

/-- The number of a frame in the heap. -/
abbrev FrameId := Nat

/-- Expressions and values. -/
inductive Expr where
  /-- Nothing, the result of a definition. -/
  | nil
  | number (value : Float)
  | text (content : String)
  | symbol (name : String)
  | list (items : List Expr)
  /-- `define name expr` -/
  | define (name : String) (expr : Expr)
  /-- `set! name expr` -/
  | assign (name : String) (expr : Expr)
  | lambda (params : List String) (body : Expr)
  /-- `if test consequent alternative` -/
  | cond (test consequent alternative : Expr)
  | quote (expr : Expr)
  | native (primitive : Primitive)
  | closure (identity : Nat) (params : List String) (body : Expr) (frame : FrameId)
  deriving Inhabited

namespace Expr

/-- Whether an expression is a special-form node. -/
def isForm : Expr → Bool
  | define .. => true
  | assign .. => true
  | lambda .. => true
  | cond .. => true
  | quote .. => true
  | _ => false

/-! ### Equality of values -/

mutual

/-- Whether two values are the same.  Numbers compare as numbers, so the two zeros
are the same; a procedure is the same only as itself. -/
def same : Expr → Expr → Bool
  | nil, nil => true
  | number x, number y => x == y
  | text s, text t => s == t
  | symbol s, symbol t => s == t
  | list xs, list ys => sameItems xs ys
  | define n e, define m d => n == m && same e d
  | assign n e, assign m d => n == m && same e d
  | lambda ps b, lambda qs c => ps == qs && same b c
  | cond a b c, cond d e f => same a d && same b e && same c f
  | quote e, quote d => same e d
  | native p, native q => p == q
  | closure i _ _ _, closure j _ _ _ => i == j
  | _, _ => false

/-- `same`, item by item. -/
def sameItems : List Expr → List Expr → Bool
  | [], [] => true
  | x :: xs, y :: ys => same x y && sameItems xs ys
  | _, _ => false

end

/-! ### Questions about the shape of an expression -/

/-- Whether an expression counts as something: nothing at all and the empty list do
not. -/
def isSomething : Expr → Bool
  | nil => false
  | list [] => false
  | _ => true

/-- Whether a list occurs in an expression, at any depth. -/
def hasList : Expr → Bool
  | list _ => true
  | define _ e => hasList e
  | assign _ e => hasList e
  | lambda _ b => hasList b
  | cond a b c => hasList a || hasList b || hasList c
  | quote e => hasList e
  | _ => false

end Expr

end FrameLisp
