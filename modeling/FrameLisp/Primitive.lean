/-
FrameLisp/Primitive.lean

What the primitive procedures do.

A primitive looks only at its arguments.  It gives a value, together with the text
it prints, which is empty for all but `print`; or it stops the run.  The number of
arguments is checked before their types, and types from left to right.
-/
import FrameLisp.Fault

namespace FrameLisp

namespace Primitive

/-- What a call comes to: a value and the text printed, or an early end. -/
abbrev Result := Except Stop (Expr × String)

/-! ### Arguments -/

/-- The number an argument of `p` is. -/
def number (p : Primitive) : Expr → Except Stop Float
  | .number x => .ok x
  | v => .error (.fault (.notNumber p v))

/-- The items of the list an argument of `p` is. -/
def items (p : Primitive) : Expr → Except Stop (List Expr)
  | .list xs => .ok xs
  | v => .error (.fault (.notList p v))

/-- The only argument of `p`. -/
def one (p : Primitive) : List Expr → Except Stop Expr
  | [v] => .ok v
  | args => .error (.fault (.argumentCount p 1 args.length))

/-- The two arguments of `p`. -/
def two (p : Primitive) : List Expr → Except Stop (Expr × Expr)
  | [v, w] => .ok (v, w)
  | args => .error (.fault (.argumentCount p 2 args.length))

/-! ### Families of primitives -/

/-- A value and nothing printed. -/
def value (v : Expr) : Result := .ok (v, "")

/-- Combine numbers from the left, starting with the first. -/
def fold (p : Primitive) (op : Float → Float → Float) : List Expr → Result
  | [] => .error (.fault (.noArguments p))
  | first :: rest => do
      let start ← p.number first
      let total ← rest.foldlM (fun acc v => return op acc (← p.number v)) start
      value (.number total)

/-- Apply a function to two numbers. -/
def binary (p : Primitive) (op : Float → Float → Float) (args : List Expr) : Result := do
  let (v, w) ← p.two args
  let x ← p.number v
  let y ← p.number w
  value (.number (op x y))

/-- Compare two numbers: 1 for yes, 0 for no. -/
def compare (p : Primitive) (op : Float → Float → Bool) (args : List Expr) : Result :=
  p.binary (fun x y => if op x y then 1.0 else 0.0) args

/-- Apply a function to one number. -/
def unary (p : Primitive) (op : Float → Float) (args : List Expr) : Result := do
  let x ← p.number (← p.one args)
  value (.number (op x))

/-- Leave the program with the first argument, truncated toward zero, as its status;
0 without arguments. -/
def leave : List Expr → Result
  | [] => .error (.exit 0)
  | first :: _ => do
      let x ← Primitive.exit.number first
      match Number.truncate? x with
      | some status => .error (.exit status)
      | none => .error (.fault (.statusNotFinite x))

/-! ### The table -/

/-- Call a primitive. -/
def call (p : Primitive) (args : List Expr) : Result :=
  match p with
  | .sequence => value (args.getLast?.getD .nil)
  | .exit => leave args
  | .add => p.fold (· + ·) args
  | .sub => p.fold (· - ·) args
  | .mul => p.fold (· * ·) args
  | .div => p.fold (· / ·) args
  | .eq => p.compare (· == ·) args
  | .le => p.compare (fun x y => x ≤ y) args
  | .ge => p.compare (fun x y => y ≤ x) args
  | .lt => p.compare (fun x y => x < y) args
  | .gt => p.compare (fun x y => y < x) args
  | .sin => p.unary Float.sin args
  | .cos => p.unary Float.cos args
  | .abs => p.unary Float.abs args
  | .pow => p.binary Float.pow args
  | .stringAppend => value (.text (String.join (args.map Expr.render)))
  | .stringLength => do
      match ← p.one args with
      | .text s => value (.number (Float.ofNat s.length))
      | v => .error (.fault (.notText v))
  | .list => value (.list args)
  | .car => do
      let xs ← p.items (← p.one args)
      value (xs.head?.getD .nil)
  | .cdr => do
      let xs ← p.items (← p.one args)
      value (.list xs.tail)
  | .cons => do
      match ← p.two args with
      | (v, .nil) => value (.list [v])
      | (v, w) => value (.list (v :: (← p.items w)))
  | .print => .ok (.nil, " ".intercalate (args.map Expr.display) ++ "\n")

end Primitive

/-- The constants every session starts with, besides the primitives. -/
def constants : List (String × Expr) :=
  [("pi", .number 3.141592653589793), ("e", .number 2.718281828459045), ("nil", .nil)]

/-- The bindings every session starts with, in order. -/
def standardBindings : List (String × Expr) :=
  Primitive.all.map (fun p => (p.name, .native p)) ++ constants

end FrameLisp
