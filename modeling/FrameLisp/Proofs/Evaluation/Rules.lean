/-
FrameLisp/Proofs/Evaluation/Rules.lean

The meaning of programs, as a relation.

`Evaluates h f e o h' t` says that evaluating `e` in the frame `f` of the heap `h`
ends with the outcome `o`, leaves the heap `h'` and prints `t`.  An outcome is a
value or a halt, that is a fault of the program or a request to exit; nesting too
deep is not among the outcomes, because it says something about the limit and
nothing about the program.  The relation knows neither limits nor the text printed
before: each rule puts together the texts that its parts print.
-/
import FrameLisp.Eval

namespace FrameLisp

/-! ### Outcomes -/

/-- Why a program ends without a value. -/
inductive Halt where
  | fault (cause : Fault)
  | exit (status : Int)

/-- What a program comes to: a value or a halt. -/
abbrev Outcome (α : Type) := Except Halt α

/-- A halt as a stop of the run. -/
def Halt.toStop : Halt → Stop
  | .fault cause => .fault cause
  | .exit status => .exit status

/-- An outcome as the result of the run. -/
def Outcome.toResult {α : Type} : Outcome α → Except Stop α
  | .ok a => .ok a
  | .error halt => .error halt.toStop

theorem Outcome.toResult_ne_tooDeep {α : Type} (o : Outcome α) :
    o.toResult ≠ .error .tooDeep := by
  rcases o with (cause | status) | a <;> exact nofun

theorem Outcome.toResult_injective {α : Type} {o₁ o₂ : Outcome α}
    (h : o₁.toResult = o₂.toResult) : o₁ = o₂ := by
  rcases o₁ with (c₁ | s₁) | a₁ <;> rcases o₂ with (c₂ | s₂) | a₂ <;> cases h <;> rfl

/-- Whether an expression is a procedure. -/
def Expr.isProcedure : Expr → Bool
  | .native _ => true
  | .closure .. => true
  | _ => false

/-- Whether an expression has no value: a procedure, and a special form other than
`quote` that stands outside a list. -/
def Expr.isInert : Expr → Bool
  | .quote _ => false
  | e => e.isForm || e.isProcedure

/-! ### The rules -/

mutual

/-- Evaluating an expression in the frame `f`. -/
inductive Evaluates : Heap → FrameId → Expr → Outcome Expr → Heap → String → Prop
  | nil {h f} : Evaluates h f .nil (.ok .nil) h ""
  | number {h f x} : Evaluates h f (.number x) (.ok (.number x)) h ""
  | text {h f s} : Evaluates h f (.text s) (.ok (.text s)) h ""
  | symbol {h f name v} :
      h.lookup f name = .ok v → Evaluates h f (.symbol name) (.ok v) h ""
  | unbound {h f name cause} :
      h.lookup f name = .error cause →
      Evaluates h f (.symbol name) (.error (.fault cause)) h ""
  | quoteAlone {h f content} : Evaluates h f (.quote content) (.ok content) h ""
  -- special forms at the head of a list; the items behind them are not looked at
  | quote {h f content rest} :
      Evaluates h f (.list (.quote content :: rest)) (.ok content) h ""
  | lambda {h f params body rest} :
      Evaluates h f (.list (.lambda params body :: rest))
        (.ok (.closure h.closures params body f)) h.countClosure ""
  | define {h f name e rest v h' t} :
      Evaluates h f e (.ok v) h' t →
      Evaluates h f (.list (.define name e :: rest)) (.ok .nil) (h'.define f name v) t
  | defineHalts {h f name e rest halt h' t} :
      Evaluates h f e (.error halt) h' t →
      Evaluates h f (.list (.define name e :: rest)) (.error halt) h' t
  | assign {h f name e rest v h' t} :
      Evaluates h f e (.ok v) h' t →
      Evaluates h f (.list (.assign name e :: rest)) (.ok .nil) (h'.assign f name v) t
  | assignHalts {h f name e rest halt h' t} :
      Evaluates h f e (.error halt) h' t →
      Evaluates h f (.list (.assign name e :: rest)) (.error halt) h' t
  | condTrue {h f a b c rest x h₁ t₁ o h₂ t₂} :
      Evaluates h f a (.ok (.number x)) h₁ t₁ → (x == 0.0) = false →
      Evaluates h₁ f b o h₂ t₂ →
      Evaluates h f (.list (.cond a b c :: rest)) o h₂ (t₁ ++ t₂)
  | condFalse {h f a b c rest x h₁ t₁ o h₂ t₂} :
      Evaluates h f a (.ok (.number x)) h₁ t₁ → (x == 0.0) = true →
      Evaluates h₁ f c o h₂ t₂ →
      Evaluates h f (.list (.cond a b c :: rest)) o h₂ (t₁ ++ t₂)
  | condOther {h f a b c rest v h' t} :
      Evaluates h f a (.ok v) h' t → (∀ x, v ≠ .number x) →
      Evaluates h f (.list (.cond a b c :: rest)) (.error (.fault (.testNotNumber v))) h' t
  | condHalts {h f a b c rest halt h' t} :
      Evaluates h f a (.error halt) h' t →
      Evaluates h f (.list (.cond a b c :: rest)) (.error halt) h' t
  -- any other list is a call: the head, then the arguments, then the procedure
  | apply {h f head args p h₁ t₁ vs h₂ t₂ o h₃ t₃} :
      head.isForm = false → Evaluates h f head (.ok p) h₁ t₁ →
      EvaluatesAll h₁ f args (.ok vs) h₂ t₂ → Applies h₂ p vs o h₃ t₃ →
      Evaluates h f (.list (head :: args)) o h₃ (t₁ ++ (t₂ ++ t₃))
  | headHalts {h f head args halt h' t} :
      head.isForm = false → Evaluates h f head (.error halt) h' t →
      Evaluates h f (.list (head :: args)) (.error halt) h' t
  | argsHalt {h f head args p h₁ t₁ halt h₂ t₂} :
      head.isForm = false → Evaluates h f head (.ok p) h₁ t₁ →
      EvaluatesAll h₁ f args (.error halt) h₂ t₂ →
      Evaluates h f (.list (head :: args)) (.error halt) h₂ (t₁ ++ t₂)
  -- what has no value
  | emptyForm {h f} : Evaluates h f (.list []) (.error (.fault .emptyForm)) h ""
  | inert {h f e} :
      e.isInert = true → Evaluates h f e (.error (.fault (.notEvaluable e))) h ""

/-- Evaluating expressions from left to right, up to the first that halts. -/
inductive EvaluatesAll :
    Heap → FrameId → List Expr → Outcome (List Expr) → Heap → String → Prop
  | nil {h f} : EvaluatesAll h f [] (.ok []) h ""
  | cons {h f e es v h₁ t₁ vs h₂ t₂} :
      Evaluates h f e (.ok v) h₁ t₁ → EvaluatesAll h₁ f es (.ok vs) h₂ t₂ →
      EvaluatesAll h f (e :: es) (.ok (v :: vs)) h₂ (t₁ ++ t₂)
  | firstHalts {h f e es halt h' t} :
      Evaluates h f e (.error halt) h' t →
      EvaluatesAll h f (e :: es) (.error halt) h' t
  | restHalts {h f e es v h₁ t₁ halt h₂ t₂} :
      Evaluates h f e (.ok v) h₁ t₁ → EvaluatesAll h₁ f es (.error halt) h₂ t₂ →
      EvaluatesAll h f (e :: es) (.error halt) h₂ (t₁ ++ t₂)

/-- Applying a procedure to arguments.  The body of a closure is evaluated in a new
frame inside the frame that the closure captured. -/
inductive Applies : Heap → Expr → List Expr → Outcome Expr → Heap → String → Prop
  | native {h p args v t} :
      p.call args = .ok (v, t) → Applies h (.native p) args (.ok v) h t
  | nativeHalts {h p args halt} :
      p.call args = .error halt.toStop → Applies h (.native p) args (.error halt) h ""
  | closure {h i params body captured args o h' t} :
      args.length = params.length →
      Evaluates (h.enter captured params args) h.next body o h' t →
      Applies h (.closure i params body captured) args o h' t
  | arity {h i params body captured args} :
      args.length ≠ params.length →
      Applies h (.closure i params body captured) args
        (.error (.fault (.closureArity (.closure i params body captured)
          params.length args.length))) h ""
  | notProcedure {h v args} :
      v.isProcedure = false → Applies h v args (.error (.fault (.notProcedure v))) h ""

end

end FrameLisp
