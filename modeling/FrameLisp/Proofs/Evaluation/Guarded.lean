/-
FrameLisp/Proofs/Evaluation/Guarded.lean

Evaluation makes no other calls.

`Makes` lists the places in which `eval` calls itself.  That none is missing is seen by
taking evaluation apart: `evalStep evalIn` is one level of it, where `evalIn` stands for all
calls, and `eval` is this with itself (`eval_succ`).  Only the calls on the list matter: if
`evalIn` does there what `eval` does, then so does the step (`evalStep_eq`).

Hence a run does not notice if the expressions that it is never called on are handed to
something else, whatever that would do with them (`evalElse_eq`).
-/
import FrameLisp.Proofs.Evaluation.Lockstep

namespace FrameLisp

/-! ### One level of evaluation -/

open EvalM in
/-- One level of evaluation, with `evalIn` for everything that is evaluated on the way. -/
def evalStep (evalIn : FrameId → Expr → EvalM Expr) (f : FrameId) : Expr → EvalM Expr
  | .nil => return .nil
  | .number x => return .number x
  | .text s => return .text s
  | .symbol name => lookup f name
  | .quote content => return content
  | .list [] => fail .emptyForm
  | .list (.define name expr :: _) => do
      let value ← evalIn f expr
      onHeap fun h => h.define f name value
      return .nil
  | .list (.assign name expr :: _) => do
      let value ← evalIn f expr
      onHeap fun h => h.assign f name value
      return .nil
  | .list (.lambda params body :: _) => makeClosure f params body
  | .list (.cond test consequent alternative :: _) => do
      match ← evalIn f test with
      | .number x => if x != 0.0 then evalIn f consequent else evalIn f alternative
      | v => fail (.testNotNumber v)
  | .list (.quote content :: _) => return content
  | .list (head :: args) => do
      let procedure ← evalIn f head
      let values ← args.mapM (evalIn f)
      apply evalIn procedure values
  | v => fail (.notEvaluable v)

variable {evalIn : FrameId → Expr → EvalM Expr} {l : Nat} {f : FrameId} {e : Expr} {m : Machine}

theorem eval_succ (l : Nat) (f : FrameId) (e : Expr) :
    eval (l + 1) f e = evalStep (eval l) f e := rfl

theorem evalStep_apply {head : Expr} (hhead : head.isForm = false) (args : List Expr) :
    evalStep evalIn f (.list (head :: args)) =
      evalIn f head >>= fun p => args.mapM (evalIn f) >>= fun vs => EvalM.apply evalIn p vs := by
  cases head <;> first | rfl | cases hhead

/-! ### The calls that matter -/

namespace Variation

/-- Two runs from the same machine. -/
theorem keeps_printing_iff {α : Type} {x y : EvalM α} :
    (printing "").Keeps x y m ↔ y m = x m := by
  have hmachine : ∀ m, (printing "").machine m = m := fun m => by simp [machine, printing]
  rw [Keeps, hmachine, hmachine]
  exact .rfl

/-- A special form in front of a list, if `evalIn` does what `eval` does on the calls it
makes. -/
theorem keeps_evalStep_form {head : Expr} {args : List Expr} (hhead : head.isForm = true)
    (hmade : ∀ d, Call.Makes ⟨l + 1, f, .list (head :: args), m⟩ d →
      (printing "").Keeps (eval d.limit d.frame d.expr) (evalIn d.frame d.expr) d.machine) :
    (printing "").Keeps (eval (l + 1) f (.list (head :: args)))
      (evalStep evalIn f (.list (head :: args))) m := by
  cases head with
  | nil | number | text | symbol | list | native | closure => cases hhead
  | quote content => exact keeps_pure content
  | lambda params body => exact keeps_makeClosure params body
  | define name e =>
      have he : (printing "").Keeps (eval l f e) (evalIn f e) m := hmade _ .define
      exact he.bind fun v m' _ _ => EvalM.Prints.onHeap _ Expr.nil "" m'
  | assign name e =>
      have he : (printing "").Keeps (eval l f e) (evalIn f e) m := hmade _ .assign
      exact he.bind fun v m' _ _ => EvalM.Prints.onHeap _ Expr.nil "" m'
  | cond a b c =>
      have ha : (printing "").Keeps (eval l f a) (evalIn f a) m := hmade _ .test
      refine ha.bind fun v m' hv _ => keeps_branch fun x hx => ?_
      subst hx
      exact hmade _ (.branch hv)

/-- The step does what `eval` does if `evalIn` does on all calls that are made. -/
theorem keeps_evalStep
    (hmade : ∀ d, Call.Makes ⟨l + 1, f, e, m⟩ d →
      (printing "").Keeps (eval d.limit d.frame d.expr) (evalIn d.frame d.expr) d.machine) :
    (printing "").Keeps (eval (l + 1) f e) (evalStep evalIn f e) m := by
  cases e with
  | nil | number | text | quote => exact keeps_pure _
  | symbol name => exact keeps_lookup rfl
  | define | assign | lambda | cond | native | closure =>
      rw [eval_inert rfl]
      exact keeps_throw _
  | list items =>
      cases items with
      | nil => exact keeps_throw _
      | cons head args =>
          by_cases hhead : head.isForm = true
          · exact keeps_evalStep_form hhead hmade
          · have hhead : head.isForm = false := by simpa using hhead
            rw [eval_succ, evalStep_apply hhead, evalStep_apply hhead]
            have hp : (printing "").Keeps (eval l f head) (evalIn f head) m :=
              hmade _ (.head hhead)
            refine hp.bind fun p m₁ hp₁ _ => ?_
            have hargs : (printing "").Keeps (args.mapM (eval l f)) (args.mapM (evalIn f)) m₁ := by
              apply keeps_mapM
              intro before d after vs m₂ heq hvs _
              exact hmade _ (.argument hhead hp₁ heq hvs)
            refine hargs.bind fun vs m₂ hvs _ => keeps_apply ?_
            rintro i params body captured rfl hlen
            exact hmade _ (.body hhead hp₁ hvs hlen)

end Variation

/-- **All calls are on the list.**  If `evalIn` does on the calls that are made what `eval`
does there, then a step with `evalIn` is a step of `eval`. -/
theorem evalStep_eq
    (hmade : ∀ d, Call.Makes ⟨l + 1, f, e, m⟩ d → evalIn d.frame d.expr d.machine = d.run) :
    evalStep evalIn f e m = eval (l + 1) f e m :=
  Variation.keeps_printing_iff.mp
    (Variation.keeps_evalStep fun d hd => Variation.keeps_printing_iff.mpr (hmade d hd))

/-! ### Calls that are not made -/

/-- Evaluation that does `other` with expressions that are not allowed. -/
def evalElse (allowed : Expr → Bool) (other : FrameId → Expr → EvalM Expr) :
    (limit : Nat) → FrameId → Expr → EvalM Expr
  | 0, f, e => if allowed e then throw .tooDeep else other f e
  | limit + 1, f, e =>
      if allowed e then evalStep (evalElse allowed other limit) f e else other f e

/-- **A run that is never called on other expressions does not notice.** -/
theorem evalElse_eq {allowed : Expr → Bool} {other : FrameId → Expr → EvalM Expr} {c : Call}
    (hallowed : ∀ d, c.Leads d → allowed d.expr = true) :
    evalElse allowed other c.limit c.frame c.expr c.machine = c.run := by
  induction c using Call.makes_induction with
  | hstep c ih =>
      have hself : allowed c.expr = true := hallowed c .refl
      have hmade : ∀ d, c.Makes d →
          evalElse allowed other d.limit d.frame d.expr d.machine = d.run :=
        fun d hd => ih d hd fun d' hleads => hallowed d' (hleads.head hd)
      obtain ⟨limit, f, e, m⟩ := c
      have hself : allowed e = true := hself
      cases limit with
      | zero =>
          simp only [evalElse, if_pos hself]
          rfl
      | succ l =>
          simp only [evalElse, if_pos hself]
          refine evalStep_eq fun d hd => ?_
          have hlimit : l = d.limit := Nat.succ.inj hd.limit_eq
          rw [hlimit]
          exact hmade d hd

end FrameLisp
