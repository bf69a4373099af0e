/-
FrameLisp/Proofs/Session/Termination.lean

Programs without closures always end.

Evaluation goes from an expression to its parts, and this ends with the height of the
expression.  The one way out is the call of a closure, which goes on with a body that is not
a part.  Closures are made by `lambda` only.  So take code without `lambda`, apart from what
is quoted, in a heap where no bound value holds a closure: then none turns up, whatever such
code binds, builds and takes apart, since the two go together (`classes_lambdaFree`).  Every
call that is made has a smaller height than the one that makes it (`Makes.height_lt`), and
adding this up along a run,

    c.Leads d  ⟹  c.limit + d.expr.height ≤ d.limit + c.expr.height,

so there is always something left of a limit that is at least the height.
-/
import FrameLisp.Proofs.Expr.Bodies
import FrameLisp.Proofs.Session.Limits

namespace FrameLisp

namespace Expr

/-! ### Code without `lambda`, values without closures -/

/-- A `lambda` occurs in an expression, and not inside a `quote`. -/
inductive UsesLambda : Expr → Prop
  | lambda {params body} : UsesLambda (.lambda params body)
  | part {e d} : (∀ content, e ≠ .quote content) → d ∈ e.parts → UsesLambda d → UsesLambda e

/-- A value that holds no closure, at any depth inside lists. -/
def ClosureFree (v : Expr) : Prop := ∀ ⦃i params body c⦄, ¬v.Holds (.closure i params body c)

/-- Code without `lambda` and without closures. -/
structure LambdaFree (e : Expr) : Prop where
  lambda : ¬e.UsesLambda
  closure {g} : ¬e.Captures g

variable {e d : Expr}

/-- There are no closures in what can be read. -/
theorem lambdaFree_of_isRead (he : e = .nil ∨ e.IsRead) (hlambda : ¬e.UsesLambda) :
    e.LambdaFree where
  lambda := hlambda
  closure := by
    obtain rfl | ⟨tokens, hderives⟩ := he
    · exact not_captures_atom rfl
    · exact hderives.not_captures

theorem closureFree_of_not_captures (he : ∀ g, ¬e.Captures g) : e.ClosureFree :=
  fun _ _ _ c hheld => he c (hheld.captures .closure)

/-- **Code without `lambda` makes values without closures.** -/
theorem classes_lambdaFree : Classes LambdaFree ClosureFree where
  code_operand := by
    intro e d he hd
    have hpart := mem_parts_of_mem_operands hd
    refine ⟨fun hlambda => he.lambda (.part ?_ hpart hlambda), fun hg => ?_⟩
    · rintro content rfl
      cases hd
    · exact he.closure (.part hpart hg)
  -- a value without closures is one whose closures have their bodies in the empty class
  value_atom := bodiesIn_atom (C := fun _ => False)
  value_list := bodiesIn_list (C := fun _ => False)
  value_quoted he :=
    closureFree_of_not_captures fun _ hg => he.closure (.part (List.mem_singleton_self _) hg)
  value_closure he := absurd .lambda he.lambda
  code_body hv := absurd Holds.self (@hv _ _ _ _)

/-! ### Heights of parts -/

theorem height_le_of_mem {es : List Expr} (he : e ∈ es) : e.height ≤ heightItems es := by
  induction es with
  | nil => cases he
  | cons d es ih =>
      rw [heightItems]
      rcases List.mem_cons.mp he with rfl | he
      · exact Nat.le_max_left _ _
      · exact Nat.le_trans (ih he) (Nat.le_max_right _ _)

theorem height_lt_of_mem_operands (hd : d ∈ e.operands) : d.height < e.height := by
  cases e with
  | list items =>
      rw [height]
      exact Nat.lt_succ_of_le (height_le_of_mem hd)
  | define name body | assign name body =>
      rw [List.mem_singleton.mp hd, height]
      exact Nat.lt_succ_self _
  | cond a b c =>
      simp only [operands, List.mem_cons, List.not_mem_nil, or_false] at hd
      rw [height]
      rcases hd with rfl | rfl | rfl <;> omega
  | _ => cases hd

/-- An operand of the special form in front of a list. -/
theorem height_lt_of_mem_form {args : List Expr} (hd : d ∈ e.operands) :
    d.height < (Expr.list (e :: args)).height :=
  Nat.lt_trans (height_lt_of_mem_operands hd) (height_lt_of_mem_operands List.mem_cons_self)

end Expr

/-! ### Runs -/

/-- Only code without `lambda` runs, and only values without closures are bound. -/
def Invariant.lambdaFree : Invariant := .ofClasses Expr.classes_lambdaFree

namespace Call

variable {c d : Call}

/-- Without closures, a call goes on with parts of its expression only. -/
theorem Makes.height_lt (hc : Invariant.lambdaFree.Admits c) (h : c.Makes d) :
    d.expr.height < c.expr.height := by
  cases h with
  | define | assign => exact Expr.height_lt_of_mem_form (List.mem_singleton_self _)
  | test => exact Expr.height_lt_of_mem_form List.mem_cons_self
  | branch _ =>
      refine Expr.height_lt_of_mem_form ?_
      split <;> simp [Expr.operands]
  | head _ => exact Expr.height_lt_of_mem_operands List.mem_cons_self
  | argument _ _ hargs _ =>
      refine Expr.height_lt_of_mem_operands ?_
      simp [Expr.operands, hargs]
  | body _ hclosure hvs _ =>
      obtain ⟨-, hfree, -⟩ := Invariant.application_holds hc hclosure hvs
      exact absurd Expr.Holds.self (@hfree _ _ _ _)

theorem Leads.height_le (hc : Invariant.lambdaFree.Admits c) (h : c.Leads d) :
    c.limit + d.expr.height ≤ d.limit + c.expr.height := by
  induction h with
  | refl => exact Nat.le_refl _
  | tail hleads hmakes ih =>
      have hheight := hmakes.height_lt (Invariant.admits_of_leads hleads hc)
      have hlimit := hmakes.limit_eq
      omega

/-- **Calls nest no deeper than the height of the expression.** -/
theorem Leads.limit_lt (hc : Invariant.lambdaFree.Admits c) (h : c.Leads d) :
    c.limit < d.limit + c.expr.height := by
  have hpos := d.expr.height_pos
  have hle := h.height_le hc
  omega

/-- A limit that is at least the height is never reached. -/
theorem not_tooDeep_of_height_le (hc : Invariant.lambdaFree.Admits c)
    (hheight : c.expr.height ≤ c.limit) : c.run.1 ≠ .error .tooDeep := by
  intro hrun
  obtain ⟨d, hleads, hzero⟩ := exists_tooDeep_origin (Prod.ext hrun rfl)
  have hlt := hleads.limit_lt hc
  omega

end Call

/-! ### Sessions -/

theorem Request.height_le_of_mem_roots {limit : Nat} {r : Request} {e : Expr}
    (he : e ∈ r.roots limit) : e.height ≤ limit := by
  unfold roots at he
  split at he
  · next roots hread =>
      obtain ⟨source, -, hread⟩ := Option.map_eq_some_iff.mp hread
      obtain ⟨-, hheight⟩ := readAll_ok_iff_derivesAll.mp hread
      exact Nat.le_trans (Expr.height_le_of_mem he) hheight
  · cases he

theorem Session.Begins.of_root {s : Session} {roots : List Expr} {c : Call}
    (h : s.Begins roots c) : c.limit = s.limit ∧ c.expr ∈ roots := by
  induction h with
  | first => exact ⟨rfl, List.mem_cons_self⟩
  | next _ _ ih => exact ⟨ih.1, List.mem_cons_of_mem _ ih.2⟩

theorem Request.lambdaFree_of_mem_roots {limit : Nat} {r : Request} {e : Expr}
    (he : e ∈ r.roots limit) (hlambda : ¬e.UsesLambda) : e.LambdaFree :=
  Expr.lambdaFree_of_isRead (.inr (isRead_of_mem_roots he)) hlambda

theorem Session.ready_lambdaFree {limit : Nat} {rs : List Request}
    (hrs : ∀ root ∈ Request.allRoots limit rs, ¬root.UsesLambda) (p : Policies) :
    Invariant.lambdaFree.Ready ((Session.start p limit).afterAll rs) := by
  have hstart : Invariant.lambdaFree.Ready (Session.start p limit) := by
    refine Invariant.start_ofClasses _ (fun primitive => ?_) p limit
    intro i params body c hheld
    cases hheld
  refine Invariant.ready_afterAll hstart fun e he _ => ?_
  obtain ⟨r, -, hroot⟩ := List.mem_flatMap.mp he
  exact Request.lambdaFree_of_mem_roots hroot (hrs e he)

section Requests

variable {s : Session} {r : Request} {c : Call} {reply : Reply}

/-- The calls of a request nest no deeper than the height of one of its roots. -/
theorem Session.Calls.limit_lt (hs : Invariant.lambdaFree.Ready s)
    (hroots : ∀ e ∈ r.roots s.limit, e.LambdaFree) (hc : s.Calls r c) :
    ∃ root ∈ r.roots s.limit, s.limit < c.limit + root.height := by
  obtain ⟨d, hbegins, hleads⟩ := hc
  obtain ⟨hlimit, hroot⟩ := hbegins.of_root
  refine ⟨d.expr, hroot, ?_⟩
  rw [← hlimit]
  exact hleads.limit_lt (Invariant.admits_of_begins hs hroots hbegins)

/-- A request that stops for nesting too deep was stopped by the reader. -/
theorem Session.readAll_of_tooDeep (hs : Invariant.lambdaFree.Ready s)
    (hroots : ∀ e ∈ r.roots s.limit, e.LambdaFree) (hreply : s.reply? r = some reply)
    (hdeep : reply.outcome = .error .tooDeep) :
    r.source?.map (readAll s.limit) = some (.error .tooDeep) := by
  rw [reply?_eq, Option.map_eq_some_iff] at hreply
  obtain ⟨source, hsource, rfl⟩ := hreply
  rw [hsource, Option.map_some]
  cases hread : readAll s.limit source with
  | error stop =>
      rw [eval_of_readAll_error hread] at hdeep
      cases stop with
      | tooDeep => rfl
      | fault cause => cases hdeep
  | ok roots =>
      -- the reader has kept to the limit, and so have the roots
      have heq : r.roots s.limit = roots := by simp [Request.roots, hsource, hread]
      rw [eval_of_readAll_ok hread, ← heq] at hdeep
      obtain ⟨c, hbegins, hrun⟩ := exists_begins_of_stop hdeep
      obtain ⟨hlimit, hroot⟩ := hbegins.of_root
      have hheight : c.expr.height ≤ c.limit := by
        rw [hlimit]
        exact Request.height_le_of_mem_roots hroot
      have hadmits := Invariant.admits_of_begins hs hroots hbegins
      exact absurd hrun (Call.not_tooDeep_of_height_le hadmits hheight)

end Requests

/-- **Programs without closures always end.**  Let `e` be an expression that can be read, or
nothing, with no `lambda` outside `quote`, and let no bound value hold a closure, at any depth
inside lists.  Then the calls in the course of evaluating `e`, in whatever frame and with
whatever limit, nest no deeper than the height of `e`.  So there is one way for it to end, not
by nesting too deep, and it ends so with every limit that is at least the height.  With any
limit, the value it gives and the values bound afterwards hold no closures either.

In a session without any `lambda` outside `quote`, all calls in the course of a request nest no
deeper than the height of one of its roots.  What stops for nesting too deep is the reader,
and it never is evaluation. -/
theorem lambdaFree_ends :
    (∀ (e : Expr) (f : FrameId) (m : Machine), e = .nil ∨ e.IsRead → ¬e.UsesLambda →
      m.heap.AllBound Expr.ClosureFree →
      (∀ limit d, Call.Leads ⟨limit, f, e, m⟩ d → limit < d.limit + e.height) ∧
      (∃ outcome m', outcome ≠ .error .tooDeep ∧
        ∀ limit, e.height ≤ limit → eval limit f e m = (outcome, m')) ∧
      ∀ limit, (eval limit f e m).2.heap.AllBound Expr.ClosureFree ∧
        ∀ v, (eval limit f e m).1 = .ok v → v.ClosureFree) ∧
    ∀ p limit rs r, (∀ root ∈ Request.allRoots limit (rs ++ [r]), ¬root.UsesLambda) →
      let s := (Session.start p limit).afterAll rs
      s.heap.AllBound Expr.ClosureFree ∧
      (∀ c, s.Calls r c → ∃ root ∈ r.roots limit, limit < c.limit + root.height) ∧
      ∀ reply, s.reply? r = some reply →
        reply.session.heap.AllBound Expr.ClosureFree ∧
        (∀ v, reply.outcome = .ok v → v.ClosureFree) ∧
        (reply.outcome = .error .tooDeep →
          r.source?.map (readAll limit) = some (.error .tooDeep)) := by
  constructor
  · intro e f m he hlambda hfree
    have hcode : e.LambdaFree := Expr.lambdaFree_of_isRead he hlambda
    have hadmits : ∀ limit, Invariant.lambdaFree.Admits ⟨limit, f, e, m⟩ :=
      fun limit => ⟨hfree, trivial, hcode⟩
    have hends : (eval e.height f e m).1 ≠ .error .tooDeep :=
      Call.not_tooDeep_of_height_le (hadmits e.height) (Nat.le_refl _)
    refine ⟨fun limit d hleads => hleads.limit_lt (hadmits limit), ?_, fun limit => ?_⟩
    · exact ⟨_, _, hends, fun limit hle => eval_mono hle hends⟩
    · obtain ⟨hheap, -, hvalue⟩ :=
        Invariant.eval_holds (hadmits limit).holds limit (hadmits limit).home hcode
      exact ⟨hheap, hvalue⟩
  · intro p limit rs r hroots s
    have hlimit : s.limit = limit := Session.limit_afterAll _ rs
    have hready : Invariant.lambdaFree.Ready s := by
      refine Session.ready_lambdaFree (fun root hroot => hroots root ?_) p
      rw [Request.allRoots, List.flatMap_append]
      exact List.mem_append_left _ hroot
    have hcode : ∀ e ∈ r.roots s.limit, e.LambdaFree := by
      intro e he
      refine Request.lambdaFree_of_mem_roots he (hroots e ?_)
      rw [hlimit] at he
      exact List.mem_flatMap.mpr ⟨r, by simp, he⟩
    refine ⟨hready.1, fun c hc => ?_, fun reply hreply => ?_⟩
    · rw [← hlimit]
      exact hc.limit_lt hready hcode
    · obtain ⟨hkept, hvalue⟩ := Invariant.keeps_reply hready hcode hreply
      refine ⟨hkept.1, hvalue, fun hdeep => ?_⟩
      rw [← hlimit]
      exact Session.readAll_of_tooDeep hready hcode hreply hdeep

/-- A `lambda` that is quoted is data and is not executed. -/
theorem lambdaFree_ends_quoted :
    let e : Expr := .list [.define "f" (.quote (.lambda [] (.text "a")))]
    let m : Machine := { heap := Heap.newFrame {} none {} }
    e.IsRead ∧ ¬e.UsesLambda ∧ e.height = 5 ∧ ∃ outcome m', outcome ≠ .error .tooDeep ∧
      ∀ limit, e.height ≤ limit → eval limit 0 e m = (outcome, m') := by
  intro e m
  have hlambda : Derives _ (.lambda [] (.text "a")) := .lambda (List.forall_mem_nil _) .text
  have hdefine : Derives _ (.define "f" (.quote (.lambda [] (.text "a")))) :=
    .define ⟨by decide, by decide⟩ (.quote hlambda)
  have halone : FormAlone [Expr.define "f" (.quote (.lambda [] (.text "a")))] := by
    intro head rest heq _
    cases heq
    rfl
  have hread : e.IsRead := ⟨_, .list (.cons hdefine .nil) halone⟩
  have huses : ¬(Expr.list [.define "f" (.quote (.lambda [] (.text "a")))]).UsesLambda := by
    intro huses
    cases huses with
    | part _ hd huses =>
        cases List.mem_singleton.mp hd
        cases huses with
        | part _ hd huses =>
            cases List.mem_singleton.mp hd
            cases huses with
            | part hquote _ _ => exact hquote _ rfl
  have hfree : m.heap.AllBound Expr.ClosureFree := (Heap.AllBound.empty _).push fun p hp => by
    cases hp
  exact ⟨hread, huses, rfl, (lambdaFree_ends.1 e 0 m (.inr hread) huses hfree).2.1⟩

end FrameLisp
