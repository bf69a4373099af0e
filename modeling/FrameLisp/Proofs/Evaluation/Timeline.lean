/-
FrameLisp/Proofs/Evaluation/Timeline.lean

The calls of a run in the order of time.

`c.Makes d` says that a call makes another one, and leaves open when.  `Call.made` lists the
calls that a call makes as they follow on each other: what comes after a step is listed only
if the step has given a value (`EvalM.thereafter`), so the list ends where the run stops.

Going through the calls of a run in this order meets every `lambda` that is executed, once
for each time it is (`Call.executions`).  Two executions are told apart by their places in this
list; nothing else about them needs to differ.
-/
import FrameLisp.Proofs.Evaluation.Stops

namespace FrameLisp

/-! ### What follows on a step -/

/-- The calls that follow on a step, given what they are for a value; none after a stop. -/
def EvalM.thereafter {α : Type} (x : EvalM α) (m : Machine) (calls : α → Machine → List Call) :
    List Call :=
  match x m with
  | (.ok a, m') => calls a m'
  | (.error _, _) => []

namespace EvalM

variable {α : Type} {x : EvalM α} {m m' : Machine} {calls : α → Machine → List Call}

theorem thereafter_ok {a : α} (hx : x m = (.ok a, m')) : x.thereafter m calls = calls a m' := by
  rw [thereafter, hx]

theorem thereafter_error {s : Stop} (hx : x m = (.error s, m')) : x.thereafter m calls = [] := by
  rw [thereafter, hx]

theorem thereafter_nil : x.thereafter m (fun _ _ => []) = [] := by
  rcases hx : x m with ⟨s | a, m'⟩
  · exact thereafter_error hx
  · exact thereafter_ok hx

theorem mem_thereafter {d : Call} :
    d ∈ x.thereafter m calls ↔ ∃ a m', x m = (.ok a, m') ∧ d ∈ calls a m' := by
  rcases hx : x m with ⟨s | a, m'⟩
  · rw [thereafter_error hx]
    constructor
    · intro hd
      cases hd
    · rintro ⟨a, m', heq, -⟩
      cases heq
  · rw [thereafter_ok hx]
    constructor
    · intro hd
      exact ⟨a, m', rfl, hd⟩
    · rintro ⟨a', m'', heq, hd⟩
      cases heq
      exact hd

theorem flatMap_thereafter (g : Call → List Call) :
    (x.thereafter m calls).flatMap g = x.thereafter m fun a m' => (calls a m').flatMap g := by
  rcases hx : x m with ⟨s | a, m'⟩
  · rw [thereafter_error hx, thereafter_error hx, List.flatMap_nil]
  · rw [thereafter_ok hx, thereafter_ok hx]

end EvalM

namespace Call

/-! ### The calls that a call makes -/

/-- The calls for expressions that are evaluated one after the other. -/
def inTurn (l : Nat) (f : FrameId) : List Expr → Machine → List Call
  | [], _ => []
  | e :: es, m => ⟨l, f, e, m⟩ :: (eval l f e).thereafter m fun _ m' => inTurn l f es m'

/-- The call for the branch that a conditional takes, if its test has given a number. -/
def ofBranch (l : Nat) (f : FrameId) (b c : Expr) : Expr → Machine → List Call
  | .number x, m => [⟨l, f, if x != 0.0 then b else c, m⟩]
  | _, _ => []

/-- The call for the body of a closure, if it is applied to as many arguments as it takes. -/
def ofBody (l : Nat) : Expr → List Expr → Machine → List Call
  | .closure _ params body captured, vs, m =>
      if vs.length = params.length then
        [⟨l, m.heap.next, body, { m with heap := m.heap.enter captured params vs }⟩]
      else []
  | _, _, _ => []

/-- The calls that a call makes itself, in the order of time. -/
def made : Call → List Call
  | ⟨0, _, _, _⟩ => []
  | ⟨l + 1, f, .list (head :: args), m⟩ =>
      match head with
      | .define _ e => [⟨l, f, e, m⟩]
      | .assign _ e => [⟨l, f, e, m⟩]
      | .cond a b c => ⟨l, f, a, m⟩ :: (eval l f a).thereafter m (ofBranch l f b c)
      | .lambda _ _ => []
      | .quote _ => []
      | head =>
          ⟨l, f, head, m⟩ :: (eval l f head).thereafter m fun p m₁ =>
            inTurn l f args m₁ ++ (args.mapM (eval l f)).thereafter m₁ (ofBody l p)
  | _ => []

variable {c d : Call} {l : Nat} {f : FrameId} {m m₁ m₂ : Machine} {head : Expr}
  {args : List Expr}

theorem made_apply (hhead : head.isForm = false) :
    made ⟨l + 1, f, .list (head :: args), m⟩ =
      ⟨l, f, head, m⟩ :: (eval l f head).thereafter m fun p m₁ =>
        inTurn l f args m₁ ++ (args.mapM (eval l f)).thereafter m₁ (ofBody l p) := by
  cases head with
  | define | assign | cond | lambda | quote => cases hhead
  | _ => rfl

theorem inTurn_append_cons {before after vs : List Expr} {e : Expr}
    (hbefore : before.mapM (eval l f) m = (.ok vs, m₁)) :
    inTurn l f (before ++ e :: after) m =
      inTurn l f before m ++
        ⟨l, f, e, m₁⟩ :: (eval l f e).thereafter m₁ fun _ m' => inTurn l f after m' := by
  induction before generalizing m vs with
  | nil =>
      cases hbefore
      rfl
  | cons a before ih =>
      rw [List.mapM_cons] at hbefore
      obtain ⟨v, m', ha, hrest⟩ := Run.bind_eq_ok hbefore
      obtain ⟨ws, m'', hbefore, hpure⟩ := Run.bind_eq_ok hrest
      cases hpure
      rw [List.cons_append, inTurn, inTurn, EvalM.thereafter_ok ha, EvalM.thereafter_ok ha,
        ih hbefore, List.cons_append]

theorem mem_inTurn {es : List Expr} :
    d ∈ inTurn l f es m ↔ ∃ before e after vs m', es = before ++ e :: after ∧
      before.mapM (eval l f) m = (.ok vs, m') ∧ d = ⟨l, f, e, m'⟩ := by
  constructor
  · induction es generalizing m with
    | nil => intro hd; cases hd
    | cons a es ih =>
        intro hd
        rw [inTurn, List.mem_cons, EvalM.mem_thereafter] at hd
        obtain rfl | ⟨v, m', ha, hd⟩ := hd
        · exact ⟨[], a, es, [], m, rfl, rfl, rfl⟩
        · obtain ⟨before, e, after, vs, m'', rfl, hbefore, rfl⟩ := ih hd
          exact ⟨a :: before, e, after, v :: vs, m'', rfl, Run.mapM_cons_ok ha hbefore, rfl⟩
  · rintro ⟨before, e, after, vs, m', rfl, hbefore, rfl⟩
    rw [inTurn_append_cons hbefore]
    exact List.mem_append_right _ List.mem_cons_self

theorem mem_ofBranch {b c v : Expr} :
    d ∈ ofBranch l f b c v m ↔
      ∃ x, v = .number x ∧ d = ⟨l, f, if x != 0.0 then b else c, m⟩ := by
  cases v with
  | number x => simp [ofBranch]
  | _ => simp [ofBranch]

theorem mem_ofBody {p : Expr} {vs : List Expr} :
    d ∈ ofBody l p vs m ↔ ∃ i params body captured, p = .closure i params body captured ∧
      vs.length = params.length ∧
      d = ⟨l, m.heap.next, body, { m with heap := m.heap.enter captured params vs }⟩ := by
  cases p with
  | closure i params body captured =>
      rw [ofBody]
      constructor
      · intro hd
        split at hd
        · next hlen => exact ⟨i, params, body, captured, rfl, hlen, List.mem_singleton.mp hd⟩
        · cases hd
      · rintro ⟨_, _, _, _, heq, hlen, rfl⟩
        cases heq
        rw [if_pos hlen]
        exact List.mem_singleton_self _
  | _ => simp [ofBody]

theorem makes_of_mem_application (hhead : head.isForm = false)
    (hd : d ∈ made ⟨l + 1, f, .list (head :: args), m⟩) :
    Makes ⟨l + 1, f, .list (head :: args), m⟩ d := by
  rw [made_apply hhead, List.mem_cons, EvalM.mem_thereafter] at hd
  obtain rfl | ⟨p, m₁, hp, hd⟩ := hd
  · exact .head hhead
  · rw [List.mem_append, mem_inTurn, EvalM.mem_thereafter] at hd
    obtain ⟨before, e, after, vs, m₂, hargs, hbefore, rfl⟩ | ⟨vs, m₂, hvs, hd⟩ := hd
    · exact .argument hhead hp hargs hbefore
    · obtain ⟨i, params, body, captured, rfl, hlen, rfl⟩ := mem_ofBody.mp hd
      exact .body hhead hp hvs hlen

theorem makes_of_mem_form (hhead : head.isForm = true)
    (hd : d ∈ made ⟨l + 1, f, .list (head :: args), m⟩) :
    Makes ⟨l + 1, f, .list (head :: args), m⟩ d := by
  cases head with
  | define name e =>
      rw [List.mem_singleton.mp hd]
      exact .define
  | assign name e =>
      rw [List.mem_singleton.mp hd]
      exact .assign
  | cond a b c =>
      rw [made, List.mem_cons, EvalM.mem_thereafter] at hd
      obtain rfl | ⟨v, m₁, ha, hd⟩ := hd
      · exact .test
      · obtain ⟨x, rfl, rfl⟩ := mem_ofBranch.mp hd
        exact .branch ha
  | lambda | quote => cases hd
  | _ => cases hhead

/-- The list has the calls that are made, and no others. -/
theorem mem_made_iff : d ∈ c.made ↔ c.Makes d := by
  constructor
  · intro hd
    obtain ⟨limit, f, e, m⟩ := c
    cases limit with
    | zero => cases hd
    | succ l =>
        cases e with
        | list items =>
            cases items with
            | nil => cases hd
            | cons head args =>
                cases hhead : head.isForm with
                | true => exact makes_of_mem_form hhead hd
                | false => exact makes_of_mem_application hhead hd
        | _ => cases hd
  · intro hmakes
    cases hmakes with
    | define | assign => exact List.mem_cons_self
    | test => exact List.mem_cons_self
    | branch ha =>
        exact List.mem_cons_of_mem _
          (EvalM.mem_thereafter.mpr ⟨_, _, ha, List.mem_cons_self⟩)
    | head hhead =>
        rw [made_apply hhead]
        exact List.mem_cons_self
    | argument hhead hp hargs hbefore =>
        rw [made_apply hhead]
        refine List.mem_cons_of_mem _ (EvalM.mem_thereafter.mpr ⟨_, _, hp, ?_⟩)
        exact List.mem_append_left _ (mem_inTurn.mpr ⟨_, _, _, _, _, hargs, hbefore, rfl⟩)
    | body hhead hp hvs hlen =>
        rw [made_apply hhead]
        refine List.mem_cons_of_mem _ (EvalM.mem_thereafter.mpr ⟨_, _, hp, ?_⟩)
        refine List.mem_append_right _ (EvalM.mem_thereafter.mpr ⟨_, _, hvs, ?_⟩)
        exact mem_ofBody.mpr ⟨_, _, _, _, rfl, hlen, rfl⟩

/-! ### Executions of `lambda` -/

/-- Whether a call executes a `lambda`. -/
def executesLambda : Call → Bool
  | ⟨_ + 1, _, .list (.lambda _ _ :: _), _⟩ => true
  | _ => false

/-- The executions of `lambda` in the course of a call, in the order of time. -/
def executions (c : Call) : List Call :=
  if c.executesLambda then [c] else c.made.attach.flatMap fun d => executions d.1
termination_by c.limit
decreasing_by exact (mem_made_iff.mp d.2).limit_lt

theorem executesLambda_cases (hc : c.executesLambda = true) :
    ∃ l f params body rest m, c = ⟨l + 1, f, .list (.lambda params body :: rest), m⟩ := by
  unfold executesLambda at hc
  split at hc
  · exact ⟨_, _, _, _, _, _, rfl⟩
  · cases hc

theorem exists_value_of_executesLambda (hc : c.executesLambda = true) :
    ∃ v, c.run.1 = .ok v := by
  obtain ⟨l, f, params, body, rest, m, rfl⟩ := executesLambda_cases hc
  exact ⟨_, rfl⟩

theorem executions_lambda (hc : c.executesLambda = true) : c.executions = [c] := by
  rw [executions, if_pos hc]

theorem executions_eq (hc : c.executesLambda = false) :
    c.executions = c.made.flatMap executions := by
  rw [executions, hc, if_neg Bool.false_ne_true, ← List.flatMap_map, List.attach_map_subtype_val]

theorem not_makes_of_executesLambda (hc : c.executesLambda = true) : ¬c.Makes d := by
  obtain ⟨l, f, params, body, rest, m, rfl⟩ := executesLambda_cases hc
  intro hmakes
  cases hmakes with
  | head hhead => cases hhead
  | argument hhead => cases hhead
  | body hhead => cases hhead

/-- **The executions in the course of a call are the calls it leads to that execute a
`lambda`.** -/
theorem mem_executions_iff : d ∈ c.executions ↔ c.Leads d ∧ d.executesLambda = true := by
  induction c using makes_induction with
  | hstep c ih =>
      cases hc : c.executesLambda with
      | true =>
          rw [executions_lambda hc, List.mem_singleton]
          constructor
          · rintro rfl
            exact ⟨.refl, hc⟩
          · rintro ⟨hleads, -⟩
            obtain rfl | ⟨d', hmakes, -⟩ := Relation.ReflTransGen.cases_head hleads
            · rfl
            · exact absurd hmakes (not_makes_of_executesLambda hc)
      | false =>
          rw [executions_eq hc, List.mem_flatMap]
          constructor
          · rintro ⟨d', hd', hd⟩
            have hmakes := mem_made_iff.mp hd'
            obtain ⟨hleads, hlambda⟩ := (ih d' hmakes).mp hd
            exact ⟨hleads.head hmakes, hlambda⟩
          · rintro ⟨hleads, hlambda⟩
            obtain rfl | ⟨d', hmakes, hleads⟩ := Relation.ReflTransGen.cases_head hleads
            · cases hc.symm.trans hlambda
            · exact ⟨d', mem_made_iff.mpr hmakes, (ih d' hmakes).mpr ⟨hleads, hlambda⟩⟩

/-! ### Executions, form by form -/

theorem executions_of_made_nil (hc : c.executesLambda = false) (hmade : c.made = []) :
    c.executions = [] := by
  rw [executions_eq hc, hmade, List.flatMap_nil]

theorem executions_define {name : String} {e : Expr} :
    executions ⟨l + 1, f, .list (.define name e :: args), m⟩ = executions ⟨l, f, e, m⟩ := by
  rw [executions_eq rfl, made, List.flatMap_singleton]

theorem executions_assign {name : String} {e : Expr} :
    executions ⟨l + 1, f, .list (.assign name e :: args), m⟩ = executions ⟨l, f, e, m⟩ := by
  rw [executions_eq rfl, made, List.flatMap_singleton]

theorem executions_cond {a b c : Expr} :
    executions ⟨l + 1, f, .list (.cond a b c :: args), m⟩ =
      executions ⟨l, f, a, m⟩ ++
        (eval l f a).thereafter m fun v m₁ => (ofBranch l f b c v m₁).flatMap executions := by
  rw [executions_eq rfl, made, List.flatMap_cons, EvalM.flatMap_thereafter]

theorem executions_apply (hhead : head.isForm = false) :
    executions ⟨l + 1, f, .list (head :: args), m⟩ =
      executions ⟨l, f, head, m⟩ ++ (eval l f head).thereafter m fun p m₁ =>
        (inTurn l f args m₁).flatMap executions ++ (args.mapM (eval l f)).thereafter m₁
          fun vs m₂ => (ofBody l p vs m₂).flatMap executions := by
  have hlambda : executesLambda ⟨l + 1, f, .list (head :: args), m⟩ = false := by
    cases head with
    | lambda => cases hhead
    | _ => rfl
  rw [executions_eq hlambda, made_apply hhead, List.flatMap_cons, EvalM.flatMap_thereafter]
  simp only [List.flatMap_append, EvalM.flatMap_thereafter]

end Call

end FrameLisp
