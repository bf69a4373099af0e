/-
FrameLisp/Proofs/Session/Provenance.lean

Data never becomes code.

By `quote` a program gets hold of syntax as data, and lists, variables and closures carry it
around; but there is no way back.  What is evaluated in a session are parts of the roots that
were read, and a closure has its parameters and its body from a `lambda` that is such a part.
The reader makes no procedures and puts nothing behind a special form in a list, and so
neither is ever evaluated, although the program can build both as data.

Code and values are two classes that go together (`classes_occursIn`): expressions that occur
in the roots, and values all of whose closures were made from a `lambda` in the roots.
-/
import FrameLisp.Proofs.Evaluation.Guarded
import FrameLisp.Proofs.Expr.Bodies

namespace FrameLisp

namespace Expr

variable {e d n : Expr} {roots : List Expr}

theorem Contains.trans (hd : e.Contains d) (hn : d.Contains n) : e.Contains n := by
  induction hd with
  | self => exact hn
  | part hpart _ ih => exact .part hpart (ih hn)

/-! ### What can be read -/

theorem IsRead.contains (he : e.IsRead) (hd : e.Contains d) : d.IsRead :=
  closedUnderParts_isRead.contains hd he

theorem IsRead.isProcedure (he : e.IsRead) : e.isProcedure = false := by
  obtain ⟨tokens, hderives⟩ := he
  cases hderives <;> rfl

/-- The reader puts nothing behind a special form. -/
theorem IsRead.formAlone {items : List Expr} (he : (Expr.list items).IsRead) : FormAlone items := by
  obtain ⟨tokens, hderives⟩ := he
  cases hderives with
  | list _ halone => exact halone

/-! ### Closures in values -/

section ClosuresIn

variable {K : Nat → List String → Expr → FrameId → Prop}

/-- All closures in a value, at any depth, are in `K`. -/
def ClosuresIn (K : Nat → List String → Expr → FrameId → Prop) (v : Expr) : Prop :=
  ∀ ⦃i params body c⦄, v.Contains (.closure i params body c) → K i params body c

/-- There are no closures in what can be read. -/
theorem IsRead.closuresIn (he : e.IsRead) : e.ClosuresIn K := by
  intro i params body c hclosure
  cases (he.contains hclosure).isProcedure

theorem closuresIn_atom (he : e.isAtom = true) : e.ClosuresIn K := by
  intro i params body c hclosure
  cases hclosure with
  | self => cases he
  | part hd _ =>
      cases e with
      | nil | number | text => cases hd
      | _ => cases he

theorem closuresIn_list {xs : List Expr} :
    (Expr.list xs).ClosuresIn K ↔ ∀ x ∈ xs, x.ClosuresIn K := by
  constructor
  · intro h x hx i params body c hclosure
    exact h (.part hx hclosure)
  · intro h i params body c hclosure
    cases hclosure with
    | part hx hclosure => exact h _ hx hclosure

theorem closuresIn_closure {i c : Nat} {params : List String} {body : Expr}
    (hK : K i params body c) (hbody : body.IsRead) :
    (Expr.closure i params body c).ClosuresIn K := by
  intro i' params' body' c' hclosure
  cases hclosure with
  | self => exact hK
  | part hd hclosure =>
      rw [List.mem_singleton.mp hd] at hclosure
      exact hbody.closuresIn hclosure

end ClosuresIn

/-! ### Parts of the roots -/

/-- An expression is a part of one of the roots, at any depth. -/
def OccursIn (roots : List Expr) (e : Expr) : Prop := ∃ root ∈ roots, root.Contains e

/-- All closures in a value, at any depth, have their parameters and their body from a
`lambda` that occurs in the roots. -/
def MadeFrom (roots : List Expr) (v : Expr) : Prop :=
  ∀ ⦃i params body c⦄, v.Contains (.closure i params body c) →
    OccursIn roots (.lambda params body)

theorem OccursIn.contains (he : OccursIn roots e) (hd : e.Contains d) : OccursIn roots d := by
  obtain ⟨root, hroot, he⟩ := he
  exact ⟨root, hroot, he.trans hd⟩

theorem OccursIn.isRead (hroots : ∀ root ∈ roots, root.IsRead) (he : OccursIn roots e) :
    e.IsRead := by
  obtain ⟨root, hroot, he⟩ := he
  exact (hroots root hroot).contains he

/-- **Code from the roots makes closures from the roots.** -/
theorem classes_occursIn (hroots : ∀ root ∈ roots, root.IsRead) :
    Classes (OccursIn roots) (MadeFrom roots) where
  code_operand he hd := he.contains (.part (mem_parts_of_mem_operands hd) .self)
  value_atom hv := closuresIn_atom hv
  value_list := closuresIn_list
  value_quoted he := by
    have hcontent := he.contains (.part (List.mem_singleton_self _) .self)
    exact (hcontent.isRead hroots).closuresIn
  value_closure he := by
    have hbody := he.contains (.part (List.mem_singleton_self _) .self)
    exact closuresIn_closure he (hbody.isRead hroots)
  code_body hv := (hv .self).contains (.part (List.mem_singleton_self _) .self)

end Expr

/-! ### Sessions -/

/-- Only code from the roots runs, and only closures from the roots are bound. -/
def Invariant.ofRoots {roots : List Expr} (hroots : ∀ root ∈ roots, root.IsRead) : Invariant :=
  .ofClasses (Expr.classes_occursIn hroots)

theorem Request.isRead_of_mem_allRoots {limit : Nat} {rs : List Request} :
    ∀ root ∈ allRoots limit rs, root.IsRead := by
  intro root hroot
  obtain ⟨r, -, hroot⟩ := List.mem_flatMap.mp hroot
  exact isRead_of_mem_roots hroot

/-- A session keeps to the roots of its requests, and to any more that there may be. -/
theorem Session.ready_ofRoots {roots : List Expr} (hroots : ∀ root ∈ roots, root.IsRead)
    {limit : Nat} {rs : List Request} (hrs : ∀ e ∈ Request.allRoots limit rs, e ∈ roots)
    (p : Policies) : (Invariant.ofRoots hroots).Ready ((Session.start p limit).afterAll rs) := by
  have hstart : (Invariant.ofRoots hroots).Ready (start p limit) := by
    refine Invariant.start_ofClasses _ (fun primitive i params body c hclosure => ?_) p limit
    cases hclosure with
    | part hd _ => cases hd
  exact Invariant.ready_afterAll hstart fun e he _ => ⟨e, hrs e he, .self⟩

/-- **Data never becomes code.**  In a session, whatever was asked of it and whatever became of
that, all closures in bound values and in replies, at any depth, have their parameters and
their body from a `lambda` that occurs in a root of the session.  Every call that is made in
the course of a request evaluates an expression that occurs in such a root.  So there is no
procedure in it at any depth, and if it is a list that starts with a special form, then there
is nothing else in the list.  No other calls are made: it makes no difference to the run what
would be done with expressions that do not occur in the roots. -/
theorem evaluated_occursIn_roots (p : Policies) (limit : Nat) (rs : List Request) (r : Request) :
    let s := (Session.start p limit).afterAll rs
    let roots := Request.allRoots limit (rs ++ [r])
    s.heap.AllBound (Expr.MadeFrom (Request.allRoots limit rs)) ∧
    (∀ reply v, s.reply? r = some reply → reply.outcome = .ok v → v.MadeFrom roots) ∧
    ∀ c, s.Calls r c →
      Expr.OccursIn roots c.expr ∧
      (∀ d, c.expr.Contains d → d.isProcedure = false) ∧
      (∀ head rest, c.expr = .list (head :: rest) → head.isForm = true → rest = []) ∧
      c.machine.heap.AllBound (Expr.MadeFrom roots) ∧
      (∀ v, c.run.1 = .ok v → v.MadeFrom roots) ∧
      ∀ allowed other, (∀ e, Expr.OccursIn roots e → allowed e = true) →
        evalElse allowed other c.limit c.frame c.expr c.machine = c.run := by
  intro s roots
  have hread : ∀ root ∈ roots, root.IsRead := Request.isRead_of_mem_allRoots
  have hready : (Invariant.ofRoots hread).Ready s := by
    refine Session.ready_ofRoots hread (fun e he => ?_) p
    simp only [roots, Request.allRoots, List.flatMap_append]
    exact List.mem_append_left _ he
  have hr : ∀ e ∈ r.roots s.limit, Expr.OccursIn roots e := by
    intro e he
    rw [Session.limit_afterAll] at he
    exact ⟨e, List.mem_flatMap.mpr ⟨r, by simp, he⟩, .self⟩
  have hcalls : ∀ {c}, s.Calls r c → (Invariant.ofRoots hread).Admits c :=
    fun hc => Invariant.admits_of_calls hready hr hc
  refine ⟨?_, fun reply v hreply => (Invariant.keeps_reply hready hr hreply).2 v, fun c hc => ?_⟩
  · exact (Session.ready_ofRoots Request.isRead_of_mem_allRoots (fun _ he => he) p).1
  · obtain ⟨hholds, hhome, hoccurs⟩ := hcalls hc
    have hexpr : c.expr.IsRead := Expr.OccursIn.isRead hread hoccurs
    refine ⟨hoccurs, fun d hd => (hexpr.contains hd).isProcedure, ?_, hholds, ?_, ?_⟩
    · intro head rest hlist hform
      rw [hlist] at hexpr
      exact hexpr.formAlone head rest rfl hform
    · exact (Invariant.eval_holds hholds c.limit hhome hoccurs).2.2
    · intro allowed other hallowed
      obtain ⟨d, hbegins, hleads⟩ := hc
      -- whatever the call leads to is a call of the session as well
      refine evalElse_eq fun c' hc' => hallowed _ ?_
      exact (hcalls ⟨d, hbegins, hleads.trans hc'⟩).code

end FrameLisp
