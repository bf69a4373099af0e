/-
FrameLisp/Proofs/Session/Quoting.lean

Syntax as data comes from `quote` only.

Symbols and special forms are what programs consist of.  Evaluation makes values of them, or
stops; it hands them on as they are in one place only, and this is `quote`.  Call a value free
of syntax if it is nothing, a number, a text, a procedure, or a list of such values.  Then code
without `quote` gives values that are free of syntax as long as it starts from such values, and
as long as the closures it calls have no `quote` in their bodies either: these are two classes
that go together (`classes_quoteFree`).

A session starts with values that are free of syntax.  Without a token that is read as a quote
there is no `quote` in its code (`Derives.quoteFree`), so it never gets hold of any others.
-/
import FrameLisp.Proofs.Expr.Bodies

namespace FrameLisp

namespace Expr

/-! ### Values without syntax -/

/-- Nothing, numbers, texts and procedures, and lists of such values. -/
inductive SyntaxFree : Expr → Prop
  | atom {v} : v.isAtom = true → SyntaxFree v
  | procedure {v} : v.isProcedure = true → SyntaxFree v
  | list {xs} : (∀ x ∈ xs, SyntaxFree x) → SyntaxFree (.list xs)

/-- Whether an expression is a symbol or a special form. -/
def isSyntax : Expr → Bool
  | .symbol _ => true
  | e => e.isForm

variable {v w : Expr}

theorem SyntaxFree.isSyntax (hv : v.SyntaxFree) : v.isSyntax = false := by
  cases hv with
  | atom h | procedure h => cases v <;> first | rfl | cases h
  | list _ => rfl

theorem syntaxFree_list {xs : List Expr} :
    (Expr.list xs).SyntaxFree ↔ ∀ x ∈ xs, x.SyntaxFree := by
  constructor
  · intro h
    cases h with
    | atom h | procedure h => cases h
    | list h => exact h
  · exact .list

theorem SyntaxFree.holds (hv : v.SyntaxFree) (hw : v.Holds w) : w.SyntaxFree := by
  induction hw with
  | self => exact hv
  | item hx _ ih => exact ih (syntaxFree_list.mp hv _ hx)

theorem syntaxFree_of_holds : (v : Expr) → (∀ w, v.Holds w → w.isSyntax = false) → v.SyntaxFree
  | .nil, _ | .number _, _ | .text _, _ => .atom rfl
  | .native _, _ | .closure .., _ => .procedure rfl
  | .symbol _, hv | .quote _, hv | .define .., hv | .assign .., hv | .lambda .., hv
  | .cond .., hv => nomatch hv _ .self
  | .list _, hv => .list fun x hx => syntaxFree_of_holds x fun w hw => hv w (.item hx hw)

/-- A value is free of syntax exactly if it holds no symbol and no special form, at any depth
inside lists. -/
theorem syntaxFree_iff : v.SyntaxFree ↔ ∀ w, v.Holds w → w.isSyntax = false :=
  ⟨fun hv _ hw => (hv.holds hw).isSyntax, syntaxFree_of_holds v⟩

/-! ### Code without `quote` -/

/-- An expression in which no `quote` occurs. -/
def QuoteFree : Expr → Prop := Lacks fun d => ∃ content, d = .quote content

theorem quoteFree_of_parts {e : Expr} (he : ∀ content, e ≠ .quote content)
    (hparts : ∀ d ∈ e.parts, d.QuoteFree) : e.QuoteFree :=
  lacks_of_parts (fun ⟨content, hcontent⟩ => he content hcontent) hparts

/-- **Code without `quote` makes values without syntax.** -/
theorem classes_quoteFree :
    Classes QuoteFree fun v => v.SyntaxFree ∧ v.BodiesIn QuoteFree where
  code_operand he hd := closedUnderParts_lacks _ he (mem_parts_of_mem_operands hd)
  value_atom hv := ⟨.atom hv, bodiesIn_atom hv⟩
  value_list := by
    intro xs
    rw [syntaxFree_list, bodiesIn_list]
    constructor
    · rintro ⟨hfree, hbodies⟩ x hx
      exact ⟨hfree x hx, hbodies x hx⟩
    · intro h
      exact ⟨fun x hx => (h x hx).1, fun x hx => (h x hx).2⟩
  value_quoted he := absurd ⟨_, rfl⟩ (he _ .self)
  value_closure he :=
    ⟨.procedure rfl, bodiesIn_closure (closedUnderParts_lacks _ he (List.mem_singleton_self _))⟩
  code_body hv := hv.2 .self

end Expr

/-! ### Text without quotes -/

/-- A token that is read as a quote: the keyword, or a quote mark with or without something
behind it. -/
def Token.IsQuoting (t : Token) : Prop := t = Keyword.quote.name ∨ t.toList.head? = some '\''

mutual

theorem Derives.quoteFree {ts : List Token} {e : Expr} :
    Derives ts e → (∀ t ∈ ts, ¬t.IsQuoting) → e.QuoteFree
  | .number _, _ => Expr.quoteFree_of_parts nofun nofun
  | .text, _ => Expr.quoteFree_of_parts nofun nofun
  | .symbol _, _ => Expr.quoteFree_of_parts nofun nofun
  | .quoteMark _, hts => absurd (.inr rfl) (hts _ List.mem_cons_self)
  | .glued _ _, hts => absurd (.inr (by simp)) (hts _ List.mem_cons_self)
  | .quote _, hts => absurd (.inl rfl) (hts _ List.mem_cons_self)
  | .define _ he, hts | .assign _ he, hts | .lambda _ he, hts => by
      have hpart := he.quoteFree fun t ht => hts t (by simp [ht])
      exact Expr.quoteFree_of_parts nofun (List.forall_mem_singleton.mpr hpart)
  | .cond ha hb hc, hts => by
      have ha := ha.quoteFree fun t ht => hts t (by simp [ht])
      have hb := hb.quoteFree fun t ht => hts t (by simp [ht])
      have hc := hc.quoteFree fun t ht => hts t (by simp [ht])
      exact Expr.quoteFree_of_parts nofun (by simp [Expr.parts, ha, hb, hc])
  | .list hes _, hts =>
      Expr.quoteFree_of_parts nofun (hes.quoteFree fun t ht => hts t (by simp [ht]))

theorem DerivesAll.quoteFree {ts : List Token} {es : List Expr} :
    DerivesAll ts es → (∀ t ∈ ts, ¬t.IsQuoting) → ∀ e ∈ es, e.QuoteFree
  | .nil, _ => nofun
  | .cons he hes, hts =>
      List.forall_mem_cons.mpr
        ⟨he.quoteFree fun t ht => hts t (List.mem_append_left _ ht),
          hes.quoteFree fun t ht => hts t (List.mem_append_right _ ht)⟩

end

/-! ### Runs and sessions -/

/-- Only code without `quote` runs, and only values without syntax are bound. -/
def Invariant.quoteFree : Invariant := .ofClasses Expr.classes_quoteFree

/-- A run of code without `quote`, from values without syntax. -/
theorem eval_syntaxFree {f : FrameId} {e : Expr} {m : Machine} (he : e.QuoteFree)
    (hvalues : m.heap.AllBound Expr.SyntaxFree) (hbodies : m.heap.BodiesIn Expr.QuoteFree)
    (limit : Nat) :
    Invariant.quoteFree.holds (eval limit f e m).2.heap ∧
      ∀ v, (eval limit f e m).1 = .ok v → v.SyntaxFree ∧ v.BodiesIn Expr.QuoteFree := by
  have hholds : Invariant.quoteFree.holds m.heap :=
    fun _ _ _ _ hframe hmem => ⟨hvalues hframe hmem, hbodies hframe hmem⟩
  have hhome : Invariant.quoteFree.home m.heap.next f := trivial
  obtain ⟨hheap, -, hvalue⟩ := Invariant.eval_holds hholds limit hhome he
  exact ⟨hheap, hvalue⟩

/-- Without a token that is read as a quote, there is no `quote` in the roots. -/
theorem Request.quoteFree_of_mem_roots {limit : Nat} {r : Request} {e : Expr}
    (hr : ∀ t ∈ r.tokens, ¬t.IsQuoting) (he : e ∈ r.roots limit) : e.QuoteFree := by
  obtain ⟨c, hc, hderives⟩ := derives_of_mem_roots he
  exact hderives.quoteFree fun t ht => hr t (hc t ht)

theorem Session.ready_quoteFree {rs : List Request}
    (hrs : ∀ r ∈ rs, ∀ t ∈ r.tokens, ¬t.IsQuoting) (p : Policies) (limit : Nat) :
    Invariant.quoteFree.Ready ((Session.start p limit).afterAll rs) := by
  have hstart : Invariant.quoteFree.Ready (Session.start p limit) := by
    refine Invariant.start_ofClasses _ (fun primitive => ⟨.procedure rfl, ?_⟩) p limit
    intro i params body c hheld
    cases hheld
  refine Invariant.ready_afterAll hstart fun e he _ => ?_
  obtain ⟨r, hr, he⟩ := List.mem_flatMap.mp he
  exact Request.quoteFree_of_mem_roots (hrs r hr) he

/-- **Symbols and special forms become values through `quote` only.**  Let all bound values be
free of syntax, and let there be no `quote` in the bodies of closures.  Then evaluating an
expression without `quote` keeps it so, whatever the outcome is, and the value it gives, if
any, is free of syntax and holds no closure with a `quote` in its body.  Free of syntax means
that no symbol and no special form is held at any depth inside lists.

If no token of any request is read as a quote, then in the course of the session all bound
values are free of syntax, and so are the values that replies give, the values of all calls,
and the values that procedures are applied to, printing included. -/
theorem syntax_only_quoted :
    (∀ limit f e (m : Machine), e.QuoteFree → m.heap.AllBound Expr.SyntaxFree →
      m.heap.BodiesIn Expr.QuoteFree →
      let run := eval limit f e m
      (∀ v, run.1 = .ok v → v.SyntaxFree ∧ v.BodiesIn Expr.QuoteFree) ∧
      run.2.heap.AllBound Expr.SyntaxFree ∧ run.2.heap.BodiesIn Expr.QuoteFree) ∧
    (∀ v : Expr, v.SyntaxFree ↔ ∀ w, v.Holds w → w.isSyntax = false) ∧
    ∀ p limit rs r, (∀ r' ∈ rs ++ [r], ∀ t ∈ r'.tokens, ¬t.IsQuoting) →
      let s := (Session.start p limit).afterAll rs
      s.heap.AllBound Expr.SyntaxFree ∧
      (∀ reply v, s.reply? r = some reply → reply.outcome = .ok v → v.SyntaxFree) ∧
      ∀ c, s.Calls r c →
        c.machine.heap.AllBound Expr.SyntaxFree ∧
        (∀ v, c.run.1 = .ok v → v.SyntaxFree) ∧
        ∀ q vs, c.AppliesTo q vs → ∀ v ∈ vs, v.SyntaxFree := by
  refine ⟨fun limit f e m he hvalues hbodies => ?_, fun v => Expr.syntaxFree_iff, ?_⟩
  · obtain ⟨hheap, hvalue⟩ := eval_syntaxFree he hvalues hbodies limit
    exact ⟨hvalue, hheap.imp fun _ hv => hv.1, hheap.imp fun _ hv => hv.2⟩
  · intro p limit rs r hquoting s
    have hready : Invariant.quoteFree.Ready s :=
      Session.ready_quoteFree (fun r' hr' => hquoting r' (List.mem_append_left _ hr')) p limit
    have hroots : ∀ e ∈ r.roots s.limit, e.QuoteFree := fun e he =>
      Request.quoteFree_of_mem_roots (hquoting r (by simp)) he
    refine ⟨hready.1.imp fun _ hv => hv.1, fun reply v hreply hv => ?_, fun c hc => ?_⟩
    · exact ((Invariant.keeps_reply hready hroots hreply).2 v hv).1
    · have hc : Invariant.quoteFree.Admits c := Invariant.admits_of_calls hready hroots hc
      refine ⟨hc.holds.imp fun _ hv => hv.1, fun v hv => ?_, fun q vs happlies v hv => ?_⟩
      · exact ((Invariant.eval_holds hc.holds c.limit hc.home hc.code).2.2 v hv).1
      · obtain ⟨n, -, hvs⟩ := Invariant.value_of_appliesTo hc happlies
        exact (hvs v hv).1

/-- A call of a closure, and a session that puts a procedure into a list and calls it from
there. -/
theorem syntax_only_quoted_procedure :
    let m : Machine :=
      { heap := { frames := #[{ bindings := [("f", .closure 0 ["y"] (.symbol "y") 0)] }] } }
    let call : Expr := .list [.symbol "f", .text "a"]
    let s := (Session.start {} 9).afterAll [.eval "(define x (list car \"a\"))"]
    (∀ v, (eval 9 0 call m).1 = .ok v → v.SyntaxFree) ∧
    (eval 9 0 call m).2.heap.AllBound Expr.SyntaxFree ∧
    s.heap.AllBound Expr.SyntaxFree ∧
    ∀ reply v, s.reply? (.eval "((car x) x)") = some reply → reply.outcome = .ok v →
      v.SyntaxFree := by
  obtain ⟨hruns, -, hsessions⟩ := syntax_only_quoted
  have hcall : (Expr.list [.symbol "f", .text "a"]).QuoteFree := by
    refine Expr.quoteFree_of_parts nofun (List.forall_mem_cons.mpr
      ⟨?_, List.forall_mem_singleton.mpr ?_⟩)
    · exact Expr.quoteFree_of_parts nofun nofun
    · exact Expr.quoteFree_of_parts nofun nofun
  have hbody : (Expr.symbol "y").QuoteFree := Expr.quoteFree_of_parts nofun nofun
  have htokens : ∀ r ∈ [Request.eval "(define x (list car \"a\"))"] ++ [.eval "((car x) x)"],
      ∀ t ∈ r.tokens, ¬t.IsQuoting := by
    have hdefine : tokenize "(define x (list car \"a\"))" =
        ["(", "define", "x", "(", "list", "car", "\"a\"", ")", ")"] := by decide
    have happly : tokenize "((car x) x)" = ["(", "(", "car", "x", ")", "x", ")"] := by decide
    simp [Request.tokens, Request.source?, hdefine, happly, Token.IsQuoting, Keyword.name]
  have hbound := hsessions {} 9 _ _ htokens
  intro m call s
  have hvalues : m.heap.AllBound fun v => v.SyntaxFree ∧ v.BodiesIn Expr.QuoteFree := by
    intro g frame name v hframe hmem
    cases g with
    | zero =>
        cases hframe
        cases List.mem_singleton.mp hmem
        exact ⟨.procedure rfl, Expr.bodiesIn_closure hbody⟩
    | succ g => cases hframe
  obtain ⟨hvalue, hheap, -⟩ := hruns 9 0 call m hcall (hvalues.imp fun _ hv => hv.1)
    (hvalues.imp fun _ hv => hv.2)
  exact ⟨fun v hv => (hvalue v hv).1, hheap, hbound.1, hbound.2.1⟩

end FrameLisp
