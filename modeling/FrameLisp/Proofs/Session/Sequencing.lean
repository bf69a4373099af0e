/-
FrameLisp/Proofs/Session/Sequencing.lean

A buffer in one expression.

A session evaluates the roots of a buffer one after the other, and so does a call with its
arguments; the primitive `begin` gives the last of them.  So wrapping a buffer in a call of
`begin` does not change what it means,

    eval ("(begin " ++ source ++ " )")  =  eval source,

up to the trace and as long as the limit is not reached (`eval_begin`).  The buffer may bind
`begin` to something else: the head of the call was looked up before.

The two texts are read to different expressions: in the call the roots stand behind a symbol,
where special forms are allowed (`derivesAll_begin`).  A call nests its arguments once more, so
they are evaluated with a limit smaller by one (`evalExpr_begin`), which makes no difference
unless it is reached.
-/
import FrameLisp.Proofs.Session.Limits

namespace FrameLisp

/-! ### Reading -/

theorem isSymbol_begin : Token.IsSymbol "begin" where
  bindable := ⟨by decide, by decide⟩
  notKeyword k := by cases k <;> decide
  notQuote := by decide
  notText := by decide
  notNumber := by decide

theorem tokenize_begin (source : String) :
    tokenize ("(begin " ++ source ++ " )") = "(" :: (("begin" :: tokenize source) ++ [")"]) := by
  have hspace : ∀ c ∈ " ".toList, Text.isBlank c = true := by
    have hlist : " ".toList = [' '] := rfl
    rw [hlist]
    exact List.forall_mem_singleton.mpr rfl
  have hne : " " ≠ "" := by decide
  have hopening : tokenize "(begin" = ["(", "begin"] := by decide
  have hclosing : tokenize ")" = [")"] := by decide
  have htext : "(begin " ++ source ++ " )" = "(begin" ++ " " ++ source ++ " " ++ ")" := by
    have hfront : "(begin" ++ " " = "(begin " := rfl
    have hback : " " ++ ")" = " )" := rfl
    rw [hfront, ← hback, ← String.append_assoc]
  rw [htext, tokenize_append_blank hne hspace, tokenize_append_blank hne hspace, hopening, hclosing]
  rfl

/-- The buffer becomes the arguments of the call, whatever its roots are. -/
theorem derivesAll_begin {source : String} {roots : List Expr}
    (hderives : DerivesAll (tokenize source) roots) :
    DerivesAll (tokenize ("(begin " ++ source ++ " )")) [.list (.symbol "begin" :: roots)] := by
  -- the list does not start with a special form
  have halone : FormAlone (.symbol "begin" :: roots) := by
    intro first rest heq hform
    cases heq
    cases hform
  have hcall : Derives ("(" :: (("begin" :: tokenize source) ++ [")"]))
      (.list (.symbol "begin" :: roots)) := .list (.cons (.symbol isSymbol_begin) hderives) halone
  rw [tokenize_begin, ← List.append_nil ("(" :: _)]
  exact .cons hcall .nil

/-! ### Evaluation -/

theorem callPrimitive_sequence (values : List Expr) (m : Machine) :
    EvalM.callPrimitive .sequence values m = (.ok (values.getLast?.getD .nil), m) := by
  show (Except.ok (values.getLast?.getD .nil), (⟨m.heap, m.printed ++ ""⟩ : Machine)) = _
  rw [String.append_empty]

namespace Session

/-- Arguments are evaluated like roots, one after the other. -/
theorem mapM_eval_eq (s : Session) (last : Expr) (roots : List Expr) (before : String) :
    ∃ result : Except Stop (List Expr),
      roots.mapM (FrameLisp.eval s.limit globalFrame) ⟨s.heap, before⟩ =
        (result, ⟨(s.evalRoots last roots).session.heap,
          before ++ (s.evalRoots last roots).printed⟩) ∧
      (s.evalRoots last roots).outcome = result.map fun values => values.getLast?.getD last := by
  induction roots generalizing s last before with
  | nil =>
      refine ⟨.ok [], ?_, rfl⟩
      rw [evalRoots_nil, String.append_empty]
      rfl
  | cons e rest ih =>
      rcases hrun : FrameLisp.eval s.limit globalFrame e ⟨s.heap, ""⟩ with ⟨r, m⟩
      have hexpr := evalExpr_eq hrun
      -- a root starts with nothing printed, an argument behind what was printed before it
      have hbehind : FrameLisp.eval s.limit globalFrame e ⟨s.heap, before⟩ =
          (r, ⟨m.heap, before ++ m.printed⟩) := by
        rw [(eval_printed s.limit globalFrame e).eq, hrun]
      rw [List.mapM_cons, evalRoots_cons]
      cases r with
      | error stop =>
          have hroot : (s.evalRoot e).outcome = .error stop := by rw [outcome_evalRoot, hexpr]
          refine ⟨.error stop, ?_, ?_⟩
          · rw [Run.bind_error hbehind, Reply.andThen_error hroot, session_evalRoot,
              printed_evalRoot, hexpr]
          · rw [Reply.andThen_error hroot, hroot]
            rfl
      | ok value =>
          have hroot : (s.evalRoot e).outcome = .ok value := by rw [outcome_evalRoot, hexpr]
          have hsession : (s.evalRoot e).session = { s with heap := m.heap } := by
            rw [session_evalRoot, hexpr]
          have hprinted : (s.evalRoot e).printed = m.printed := by rw [printed_evalRoot, hexpr]
          obtain ⟨result, hrest, hout⟩ := ih { s with heap := m.heap } value (before ++ m.printed)
          refine ⟨result.map (value :: ·), ?_, ?_⟩
          · rw [Run.bind_ok hbehind, Reply.andThen_ok hroot, hsession, Reply.session_behind,
              Reply.printed_behind, hprinted, ← String.append_assoc]
            cases result with
            | error stop => exact Run.bind_error hrest
            | ok values => exact Run.bind_ok hrest
          · rw [Reply.andThen_ok hroot, hsession, Reply.outcome_behind, hout]
            cases result with
            | error stop => rfl
            | ok values => simp [Except.map, List.getLast?_cons]

variable {s : Session} {roots : List Expr} {limit : Nat} {reply : Reply}

/-- A call of `begin` comes to what its arguments come to as roots, with a limit smaller by
one. -/
theorem evalExpr_begin (hbegin : s.heap.get? globalFrame "begin" = some (.native .sequence))
    (hlimit : s.limit = limit + 2)
    (hreply : (s.withLimit (limit + 1)).evalRoots .nil roots = reply) :
    s.evalExpr (.list (.symbol "begin" :: roots)) =
      { outcome := reply.outcome
        session := reply.session.withLimit s.limit
        printed := reply.printed } := by
  have hhead : FrameLisp.eval (limit + 1) globalFrame (.symbol "begin") ⟨s.heap, ""⟩ =
      (.ok (.native .sequence), ⟨s.heap, ""⟩) := eval_symbol_of_get? hbegin limit
  obtain ⟨result, hargs, hout⟩ : ∃ result : Except Stop (List Expr),
      roots.mapM (FrameLisp.eval (limit + 1) globalFrame) ⟨s.heap, ""⟩ =
        (result, ⟨reply.session.heap, "" ++ reply.printed⟩) ∧
      reply.outcome = result.map fun values => values.getLast?.getD .nil := by
    rw [← hreply]
    exact (s.withLimit (limit + 1)).mapM_eval_eq .nil roots ""
  rw [String.empty_append] at hargs
  have hrun : FrameLisp.eval s.limit globalFrame (.list (.symbol "begin" :: roots)) ⟨s.heap, ""⟩ =
      (reply.outcome, ⟨reply.session.heap, reply.printed⟩) := by
    rw [hlimit, eval_apply rfl, Run.bind_ok hhead, hout]
    cases result with
    | error stop => exact Run.bind_error hargs
    | ok values => exact (Run.bind_ok hargs).trans (callPrimitive_sequence values _)
  have hsession : ({ s with heap := reply.session.heap } : Session) =
      reply.session.withLimit s.limit := rfl
  rw [evalExpr_eq hrun, hsession]

end Session

/-- **A buffer in one expression.**  Let `begin` be bound to the primitive in the global
frame, and let the buffer be one that can be read to its end.  If evaluating the buffer as the
arguments of a call of `begin` does not reach the limit, then it ends in the same way as
evaluating the buffer itself, with a value, by a fault or by leaving the program; it prints the
same, and leaves the same session. -/
theorem eval_begin {s : Session} {source : String} {roots : List Expr}
    (hbegin : s.heap.get? Session.globalFrame "begin" = some (.native .sequence))
    (hread : readAll s.limit source = .ok roots)
    (hdeep : (s.eval ("(begin " ++ source ++ " )")).outcome ≠ .error .tooDeep) :
    let whole := s.eval ("(begin " ++ source ++ " )")
    whole.outcome = (s.eval source).outcome ∧
    whole.session = (s.eval source).session ∧
    whole.printed = (s.eval source).printed := by
  intro whole
  have hcall : readAll s.limit ("(begin " ++ source ++ " )") =
      .ok [.list (.symbol "begin" :: roots)] := by
    apply readAll_of_derivesAll (derivesAll_begin (readAll_ok_iff_derivesAll.mp hread).1)
    intro htoo
    apply hdeep
    rw [Session.eval_of_readAll_error htoo]
    rfl
  have hwhole : whole = s.evalRoot (.list (.symbol "begin" :: roots)) :=
    (Session.eval_of_readAll_ok hcall).trans (s.evalRoots_singleton _ _)
  -- the call and its head were read, so the limit allows for both
  obtain ⟨limit, hlimit⟩ : ∃ limit, s.limit = limit + 2 := by
    obtain ⟨-, hheight⟩ := readAll_ok_iff_derivesAll.mp hcall
    simp only [Expr.heightItems, Expr.height] at hheight
    exact ⟨s.limit - 2, by omega⟩
  obtain ⟨reply, hreply⟩ : ∃ reply, (s.withLimit (limit + 1)).evalRoots .nil roots = reply :=
    ⟨_, rfl⟩
  have hexpr := Session.evalExpr_begin hbegin hlimit hreply
  have hout : whole.outcome = reply.outcome := by rw [hwhole, Session.outcome_evalRoot, hexpr]
  have hsession : whole.session = reply.session.withLimit s.limit := by
    rw [hwhole, Session.session_evalRoot, hexpr]
  have hprinted : whole.printed = reply.printed := by rw [hwhole, Session.printed_evalRoot, hexpr]
  -- one more for the limit makes no difference, since it was not reached
  have hsource : s.eval source = reply.withLimit s.limit := by
    have hle : (s.withLimit (limit + 1)).limit ≤ s.limit := by
      rw [hlimit]
      exact Nat.le_succ _
    have hne : ((s.withLimit (limit + 1)).evalRoots .nil roots).outcome ≠ .error .tooDeep := by
      rw [hreply, ← hout]
      exact hdeep
    rw [Session.eval_of_readAll_ok hread, ← hreply]
    exact Session.evalRoots_withLimit hle hne
  rw [hout, hsession, hprinted, hsource]
  exact ⟨rfl, rfl, rfl⟩

/-- The buffer binds `begin` to a text, which makes no difference to the call around it. -/
theorem eval_begin_rebound :
    let s : Session :=
      { heap := (Heap.newFrame {} none {}).define Session.globalFrame "begin" (.native .sequence)
        limit := 9 }
    let source := "(define begin \"a\") \"b\""
    s.heap.get? Session.globalFrame "begin" = some (.native .sequence) ∧
    readAll s.limit source = .ok [.list [.define "begin" (.text "a")], .text "b"] ∧
    (s.eval ("(begin " ++ source ++ " )")).outcome = (s.eval source).outcome := by
  intro s source
  have hbegin : s.heap.get? Session.globalFrame "begin" = some (.native .sequence) := rfl
  have hderives : DerivesAll (tokenize source) [.list [.define "begin" (.text "a")], .text "b"] := by
    have htokens : tokenize source = ["(", "define", "begin", "\"a\"", ")", "\"b\""] := by decide
    have hdefine : Derives ["(", "define", "begin", "\"a\"", ")"]
        (.list [.define "begin" (.text "a")]) :=
      .list (.cons (.define ⟨by decide, by decide⟩ (.text (s := "a"))) .nil) (by simp [FormAlone])
    rw [htokens]
    exact .cons hdefine (.cons (.text (s := "b")) .nil)
  have hread : readAll s.limit source = .ok [.list [.define "begin" (.text "a")], .text "b"] :=
    readAll_ok_iff_derivesAll.mpr ⟨hderives, by decide⟩
  have hcall : readAll s.limit ("(begin " ++ source ++ " )") =
      .ok [.list [.symbol "begin", .list [.define "begin" (.text "a")], .text "b"]] :=
    readAll_ok_iff_derivesAll.mpr ⟨derivesAll_begin hderives, by decide⟩
  refine ⟨hbegin, hread, (eval_begin hbegin hread ?_).1⟩
  rw [Session.eval_of_readAll_ok hcall, Session.evalRoots_singleton, Session.outcome_evalRoot,
    Session.evalExpr_begin hbegin rfl rfl]
  intro htoo
  cases htoo

end FrameLisp
