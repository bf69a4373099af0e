/-
FrameLisp/Proofs/Evaluation/Calls.lean

The calls that a run of evaluation consists of.

Evaluating an expression evaluates others on the way: parts of it in the same frame,
and the body of a closure in a new one.  A `Call` is all that evaluation depends on,
and `c.Makes d` says that `c` itself calls for `d`; there is one constructor for each
place in which `eval` calls itself, with what has to have happened before.  What a run
leads to is the reflexive and transitive closure of this,

    c.Leads d,

and a question about everything that happens in the course of a run is a question about
the calls it leads to.  Every call is made with a smaller limit, so a call can be
treated after all the calls that it makes.

An invariant of evaluation holds whenever a call is made, and the code that is called is
code of its discipline (`Invariant.admits_of_leads`).
-/
import Mathlib.Logic.Relation
import FrameLisp.Proofs.Evaluation.Coupling

namespace FrameLisp

/-! ### Calls -/

/-- A call of evaluation: what is to be evaluated, where, how deep it may nest, and the
machine at that time. -/
structure Call where
  limit : Nat
  frame : FrameId
  expr : Expr
  machine : Machine

namespace Call

/-- What a call comes to. -/
def run (c : Call) : Except Stop Expr × Machine := eval c.limit c.frame c.expr c.machine

/-- `c.Makes d`: in the course of `c`, the call `d` is made by `c` itself. -/
inductive Makes : Call → Call → Prop
  | define {l f name e rest m} :
      Makes ⟨l + 1, f, .list (.define name e :: rest), m⟩ ⟨l, f, e, m⟩
  | assign {l f name e rest m} :
      Makes ⟨l + 1, f, .list (.assign name e :: rest), m⟩ ⟨l, f, e, m⟩
  | test {l f a b c rest m} :
      Makes ⟨l + 1, f, .list (.cond a b c :: rest), m⟩ ⟨l, f, a, m⟩
  | branch {l f a b c rest m x m₁} :
      eval l f a m = (.ok (.number x), m₁) →
      Makes ⟨l + 1, f, .list (.cond a b c :: rest), m⟩ ⟨l, f, if x != 0.0 then b else c, m₁⟩
  | head {l f head args m} :
      head.isForm = false → Makes ⟨l + 1, f, .list (head :: args), m⟩ ⟨l, f, head, m⟩
  -- the head and the arguments in front of this one have given their values
  | argument {l f head args m p m₁ before e after vs m₂} :
      head.isForm = false → eval l f head m = (.ok p, m₁) → args = before ++ e :: after →
      before.mapM (eval l f) m₁ = (.ok vs, m₂) →
      Makes ⟨l + 1, f, .list (head :: args), m⟩ ⟨l, f, e, m₂⟩
  | body {l f head args m i params body captured m₁ vs m₂} :
      head.isForm = false → eval l f head m = (.ok (.closure i params body captured), m₁) →
      args.mapM (eval l f) m₁ = (.ok vs, m₂) → vs.length = params.length →
      Makes ⟨l + 1, f, .list (head :: args), m⟩
        ⟨l, m₂.heap.next, body, { m₂ with heap := m₂.heap.enter captured params vs }⟩

/-- `c.AppliesTo p vs`: the call is an application, and its head and its arguments have the
values `p` and `vs`. -/
inductive AppliesTo : Call → Expr → List Expr → Prop
  | intro {l f head args m p m₁ vs m₂} :
      head.isForm = false → eval l f head m = (.ok p, m₁) →
      args.mapM (eval l f) m₁ = (.ok vs, m₂) →
      AppliesTo ⟨l + 1, f, .list (head :: args), m⟩ p vs

/-- `c.Leads d`: in the course of `c`, the call `d` is made, by `c` or by a call that `c`
leads to; and `c` leads to itself. -/
def Leads : Call → Call → Prop := Relation.ReflTransGen Makes

variable {c d : Call}

theorem Makes.limit_eq (h : c.Makes d) : c.limit = d.limit + 1 := by
  cases h <;> rfl

theorem Makes.limit_lt (h : c.Makes d) : d.limit < c.limit := by
  rw [h.limit_eq]
  exact Nat.lt_succ_self _

/-- What holds of a call if it holds of all calls that it makes holds of every call. -/
theorem makes_induction {P : Call → Prop} (hstep : ∀ c, (∀ d, c.Makes d → P d) → P c) (c : Call) :
    P c := by
  induction hlimit : c.limit using Nat.strongRecOn generalizing c with
  | _ l ih =>
      subst hlimit
      exact hstep c fun d hd => ih d.limit hd.limit_lt d rfl

end Call

/-! ### Invariants at a call -/

namespace Invariant

variable {I : Invariant} {m : Machine} {f : FrameId}

/-- Evaluating the arguments of a call keeps an invariant. -/
theorem mapM_holds (hm : I.holds m.heap) (limit : Nat) {es : List Expr}
    (hf : I.home m.heap.next f) (hes : ∀ e ∈ es, I.code m.heap.next e) :
    I.holds (es.mapM (eval limit f) m).2.heap ∧
      m.heap.next ≤ (es.mapM (eval limit f) m).2.heap.next ∧
      ∀ vs, (es.mapM (eval limit f) m).1 = .ok vs →
        ∀ v ∈ vs, I.value (es.mapM (eval limit f) m).2.heap.next v :=
  holds_of_alike
    (Coupling.alike_mapM (I.coupling.eval_alike limit) es ⟨⟨rfl, hm⟩, rfl⟩ hf hes)

/-- The invariant holds as the call is made, and the discipline allows its code. -/
structure Admits (I : Invariant) (c : Call) : Prop where
  holds : I.holds c.machine.heap
  home : I.home c.machine.heap.next c.frame
  code : I.code c.machine.heap.next c.expr

/-- The same frame later on, with a part of the code. -/
theorem admits_later {l : Nat} {e d : Expr} {m' : Machine} (hm : I.holds m'.heap)
    (hle : m.heap.next ≤ m'.heap.next) (hf : I.home m.heap.next f) (he : I.code m.heap.next e)
    (hd : d ∈ e.operands) : I.Admits ⟨l, f, d, m'⟩ :=
  ⟨hm, I.home_mono hle hf, I.code_mono hle (I.code_operand he hd)⟩

/-- A special form in front of a list is code itself. -/
theorem code_first {n : Nat} {e : Expr} {es : List Expr} (h : I.code n (.list (e :: es))) :
    I.code n e :=
  I.code_operand h List.mem_cons_self

/-- The head and the arguments of an application have values that are allowed. -/
theorem application_holds {l : Nat} {head p : Expr} {args vs : List Expr} {m₁ m₂ : Machine}
    (hc : I.Admits ⟨l + 1, f, .list (head :: args), m⟩) (hp : eval l f head m = (.ok p, m₁))
    (hvs : args.mapM (eval l f) m₁ = (.ok vs, m₂)) :
    I.holds m₂.heap ∧ I.value m₂.heap.next p ∧ ∀ v ∈ vs, I.value m₂.heap.next v := by
  obtain ⟨hm, hf, he⟩ := hc
  obtain ⟨hm₁, hle₁, hvalue⟩ := I.eval_holds hm l hf (code_first he)
  rw [hp] at hm₁ hle₁ hvalue
  have hcode : ∀ d ∈ args, I.code m₁.heap.next d := fun d hd =>
    I.code_mono hle₁ (I.code_operand he (List.mem_cons_of_mem _ hd))
  obtain ⟨hm₂, hle₂, hvalues⟩ := I.mapM_holds hm₁ l (I.home_mono hle₁ hf) hcode
  rw [hvs] at hm₂ hle₂ hvalues
  -- the head had its value before the arguments were evaluated, and still is allowed
  exact ⟨hm₂, I.value_mono hle₂ (hvalue p rfl), hvalues vs rfl⟩

theorem value_of_appliesTo {c : Call} {p : Expr} {vs : List Expr} (hc : I.Admits c)
    (happlies : c.AppliesTo p vs) : ∃ n, I.value n p ∧ ∀ v ∈ vs, I.value n v := by
  cases happlies with
  | intro _ hp hvs =>
      obtain ⟨-, hvalue, hvalues⟩ := application_holds hc hp hvs
      exact ⟨_, hvalue, hvalues⟩

theorem admits_of_makes {c d : Call} (hmakes : c.Makes d) (hc : I.Admits c) : I.Admits d := by
  obtain ⟨hm, hf, he⟩ := hc
  cases hmakes with
  | define | assign =>
      exact admits_later hm (Nat.le_refl _) hf (code_first he) (List.mem_singleton_self _)
  | test => exact admits_later hm (Nat.le_refl _) hf (code_first he) List.mem_cons_self
  | @branch l f a b c rest m x m₁ ha =>
      have htest : a ∈ (Expr.cond a b c).operands := List.mem_cons_self
      obtain ⟨hm₁, hle, -⟩ := I.eval_holds hm l hf (I.code_operand (code_first he) htest)
      rw [ha] at hm₁ hle
      refine admits_later hm₁ hle hf (code_first he) ?_
      split <;> simp [Expr.operands]
  | head _ => exact admits_later hm (Nat.le_refl _) hf he List.mem_cons_self
  | @argument l f head args m p m₁ before e after vs m₂ _ hhead hargs hbefore =>
      subst hargs
      obtain ⟨hm₁, hle₁, -⟩ := I.eval_holds hm l hf (code_first he)
      rw [hhead] at hm₁ hle₁
      have hcode : ∀ d ∈ before, I.code m₁.heap.next d := fun d hd =>
        I.code_mono hle₁ (I.code_operand he (by simp [Expr.operands, hd]))
      obtain ⟨hm₂, hle₂, -⟩ := I.mapM_holds hm₁ l (I.home_mono hle₁ hf) hcode
      rw [hbefore] at hm₂ hle₂
      exact admits_later hm₂ (Nat.le_trans hle₁ hle₂) hf he (by simp [Expr.operands])
  | body _ hhead hargs _ =>
      obtain ⟨hm₂, hclosure, hvs⟩ := application_holds ⟨hm, hf, he⟩ hhead hargs
      refine ⟨I.holds_enter hm₂ hclosure hvs, ?_, ?_⟩
      · simpa using I.home_enter hm₂
      · simpa using I.code_mono (Nat.le_succ _) (I.code_body hclosure)

/-- **An invariant holds whenever a call is made**, and only code of its discipline is
called. -/
theorem admits_of_leads {c d : Call} (hleads : c.Leads d) (hc : I.Admits c) : I.Admits d := by
  induction hleads with
  | refl => exact hc
  | tail _ hmakes ih => exact admits_of_makes hmakes ih

end Invariant

end FrameLisp
