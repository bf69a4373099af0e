/-
FrameLisp/Proofs/Session/Limits.lean

What the limit on nesting can do.

Reading and evaluation stop where they nest deeper than the limit allows.  A run with a
greater limit is a variation of the run, which goes in lockstep with it, and they part only
where the smaller limit is reached; nothing catches that stop, so it is what the run ends
with.  Hence the limit decides whether there is an answer and not which one
(`limit_conservative`): for evaluation, for the reader, and for sessions, which read a buffer
first and then evaluate its roots one after the other.
-/
import FrameLisp.Proofs.Evaluation.Stops
import FrameLisp.Proofs.Session.Requests

namespace FrameLisp

/-! ### Evaluation -/

/-- Runs that may nest deeper. -/
def Variation.deeper (extra : Nat) : Variation := { printing "" with extra := extra }

@[simp] theorem Variation.machine_deeper (extra : Nat) (m : Machine) :
    (deeper extra).machine m = m := by
  simp [machine, deeper, printing]

/-- Runs with different limits part only where the smaller one is reached. -/
theorem Variation.deeper_parting (extra : Nat) :
    (deeper extra).Parting ((deeper extra).StopsFirst (· = .tooDeep)) where
  limit f e m := by
    obtain ⟨rest, hrest⟩ := (eval_printed extra f e).appends m
    refine .inr ⟨⟨.tooDeep, rfl, rfl⟩, rest, ?_⟩
    show (eval extra f e ((deeper extra).machine m)).2.printed = m.printed ++ rest
    rw [machine_deeper, hrest]
  lookup _ _ _ _ := .inl rfl
  assign _ _ _ := .inl rfl
  made := StopsFirst.made

section Eval

variable {limit limit' : Nat} {f : FrameId} {e : Expr} {m : Machine}

theorem Variation.call_deeper (hle : limit ≤ limit') :
    (deeper (limit' - limit)).call ⟨limit, f, e, m⟩ = ⟨limit', f, e, m⟩ := by
  have hlimit : (deeper (limit' - limit)).extra + limit = limit' := Nat.sub_add_cancel hle
  rw [call, hlimit, machine_deeper]

/-- A greater limit makes no difference unless the limit was reached. -/
theorem eval_mono (hle : limit ≤ limit') (hrun : (eval limit f e m).1 ≠ .error .tooDeep) :
    eval limit' f e m = eval limit f e m := by
  have hagrees := (Variation.deeper_parting (limit' - limit)).agrees (c := ⟨limit, f, e, m⟩)
    fun s hs htoo => hrun (htoo ▸ hs)
  rw [Variation.Agrees, Variation.call_deeper hle, Variation.machine_deeper] at hagrees
  exact hagrees

/-- With a greater limit at least as much is printed. -/
theorem eval_printed_mono (hle : limit ≤ limit') :
    ∃ rest, (eval limit' f e m).2.printed = (eval limit f e m).2.printed ++ rest := by
  have hprinted := (Variation.deeper_parting (limit' - limit)).printed rfl ⟨limit, f, e, m⟩
  rw [Variation.call_deeper hle] at hprinted
  exact hprinted

end Eval

/-! ### Sessions -/

/-- The session with another limit. -/
def Session.withLimit (s : Session) (limit : Nat) : Session := { s with limit := limit }

/-- The reply with another limit for what comes next. -/
def Reply.withLimit (reply : Reply) (limit : Nat) : Reply :=
  { reply with session := reply.session.withLimit limit }

theorem Reply.printed_andThen (reply : Reply) (next : Session → Expr → Reply) :
    ∃ t, (reply.andThen next).printed = reply.printed ++ t := by
  cases hout : reply.outcome with
  | error stop => exact ⟨"", by rw [andThen_error hout, String.append_empty]⟩
  | ok value => exact ⟨_, by rw [andThen_ok hout]; rfl⟩

namespace Session

variable {s : Session} {limit : Nat} {e last : Expr} {roots : List Expr} {source : String}

/-- A root for which the limit was not reached has the same reply with a greater one. -/
theorem evalRoot_withLimit (hle : s.limit ≤ limit)
    (hout : (s.evalRoot e).outcome ≠ .error .tooDeep) :
    (s.withLimit limit).evalRoot e = (s.evalRoot e).withLimit limit := by
  rw [outcome_evalRoot] at hout
  have hexpr : (s.withLimit limit).evalExpr e = (s.evalExpr e).withLimit limit :=
    evalExpr_eq (eval_mono hle hout)
  unfold evalRoot
  rw [hexpr]
  cases hvalue : (s.evalExpr e).outcome <;> simp [Reply.withLimit, hvalue]

/-- After a root that gives a value, the others go on with the greater limit. -/
theorem evalRoots_withLimit_ok (hle : s.limit ≤ limit) {value : Expr}
    (hroot : (s.evalRoot e).outcome = .ok value) :
    (s.withLimit limit).evalRoots last (e :: roots) =
      (((s.evalRoot e).session.withLimit limit).evalRoots value roots).behind (s.evalRoot e) := by
  have hne : (s.evalRoot e).outcome ≠ .error .tooDeep := by
    rw [hroot]
    exact nofun
  have hroot' : ((s.evalRoot e).withLimit limit).outcome = .ok value := hroot
  rw [evalRoots_cons, evalRoot_withLimit hle hne, Reply.andThen_ok hroot']
  rfl

theorem limit_evalRoot_le (hle : s.limit ≤ limit) (e : Expr) :
    (s.evalRoot e).session.limit ≤ limit := by
  rw [session_evalRoot]
  exact hle

theorem evalRoots_withLimit (hle : s.limit ≤ limit)
    (hout : (s.evalRoots last roots).outcome ≠ .error .tooDeep) :
    (s.withLimit limit).evalRoots last roots = (s.evalRoots last roots).withLimit limit := by
  induction roots generalizing s last with
  | nil => rfl
  | cons e rest ih =>
      cases hroot : (s.evalRoot e).outcome with
      | error stop =>
          have hreply : s.evalRoots last (e :: rest) = s.evalRoot e := by
            rw [evalRoots_cons, Reply.andThen_error hroot]
          have hroot' : ((s.evalRoot e).withLimit limit).outcome = .error stop := hroot
          rw [hreply] at hout ⊢
          rw [evalRoots_cons, evalRoot_withLimit hle hout, Reply.andThen_error hroot']
      | ok value =>
          have hreply : s.evalRoots last (e :: rest) =
              ((s.evalRoot e).session.evalRoots value rest).behind (s.evalRoot e) := by
            rw [evalRoots_cons, Reply.andThen_ok hroot]
          rw [hreply] at hout ⊢
          rw [evalRoots_withLimit_ok hle hroot, ih (limit_evalRoot_le hle e) hout]
          rfl

/-- With a greater limit the roots print at least as much. -/
theorem printed_evalRoots_withLimit (hle : s.limit ≤ limit) :
    ∃ rest, ((s.withLimit limit).evalRoots last roots).printed =
      (s.evalRoots last roots).printed ++ rest := by
  induction roots generalizing s last with
  | nil => exact ⟨"", rfl⟩
  | cons e rest ih =>
      cases hroot : (s.evalRoot e).outcome with
      | error stop =>
          -- the other session may go on with the next root
          obtain ⟨t, ht⟩ : ∃ t, ((s.withLimit limit).evalRoots last (e :: rest)).printed =
              ((s.withLimit limit).evalExpr e).printed ++ t := by
            rw [evalRoots_cons, ← printed_evalRoot]
            exact Reply.printed_andThen _ _
          obtain ⟨u, hu⟩ : ∃ u, ((s.withLimit limit).evalExpr e).printed =
              (s.evalExpr e).printed ++ u := eval_printed_mono hle
          refine ⟨u ++ t, ?_⟩
          rw [ht, hu, evalRoots_cons, Reply.andThen_error hroot, printed_evalRoot,
            String.append_assoc]
      | ok value =>
          obtain ⟨t, ht⟩ : ∃ t, (((s.evalRoot e).session.withLimit limit).evalRoots value
              rest).printed = ((s.evalRoot e).session.evalRoots value rest).printed ++ t :=
            ih (limit_evalRoot_le hle e)
          refine ⟨t, ?_⟩
          rw [evalRoots_withLimit_ok hle hroot, evalRoots_cons, Reply.andThen_ok hroot,
            Reply.printed_behind, Reply.printed_behind, ht, String.append_assoc]

/-- A buffer for which the limit was not reached has the same reply with a greater one. -/
theorem eval_withLimit (hle : s.limit ≤ limit) (hout : (s.eval source).outcome ≠ .error .tooDeep) :
    (s.withLimit limit).eval source = (s.eval source).withLimit limit := by
  cases hread : readAll s.limit source with
  | error stop =>
      rw [eval_of_readAll_error hread] at hout ⊢
      have hne : readAll s.limit source ≠ .error .tooDeep := by
        intro htoo
        cases hread.symm.trans htoo
        exact hout rfl
      exact eval_of_readAll_error ((readAll_mono hle hne).trans hread)
  | ok roots =>
      have hread' : readAll (s.withLimit limit).limit source = .ok roots := readAll_ok_mono hle hread
      rw [eval_of_readAll_ok hread] at hout ⊢
      rw [eval_of_readAll_ok hread', evalRoots_withLimit hle hout]

/-- With a greater limit a buffer prints at least as much. -/
theorem printed_eval_withLimit (hle : s.limit ≤ limit) (source : String) :
    ∃ rest, ((s.withLimit limit).eval source).printed = (s.eval source).printed ++ rest := by
  cases hread : readAll s.limit source with
  | error stop =>
      rw [eval_of_readAll_error hread]
      exact ⟨_, String.empty_append.symm⟩
  | ok roots =>
      have hread' : readAll (s.withLimit limit).limit source = .ok roots := readAll_ok_mono hle hread
      rw [eval_of_readAll_ok hread, eval_of_readAll_ok hread']
      exact printed_evalRoots_withLimit hle

end Session

/-- **The limit decides whether there is an answer, not which one.**  Let one limit be at most
the other.  If a run of evaluation with the first is not stopped by it, then the run with the
second ends in the same way, leaves the same heap and has printed the same; in any case it has
printed at least what the run with the first has.  If reading an expression with the first is
not stopped by it, then reading with the second comes to the same and leaves the same tokens.
And if a session is asked the same with both, then it replies the same and goes on with the
same heap unless its reply is that the first was reached, and prints at least as much. -/
theorem limit_conservative {limit limit' : Nat} (hle : limit ≤ limit') :
    (∀ f e m,
      ((eval limit f e m).1 ≠ .error .tooDeep → eval limit' f e m = eval limit f e m) ∧
      ∃ rest, (eval limit' f e m).2.printed = (eval limit f e m).2.printed ++ rest) ∧
    (∀ tokens, (readExpr limit tokens).1 ≠ .error .tooDeep →
      readExpr limit' tokens = readExpr limit tokens) ∧
    ∀ (s : Session) r reply, (s.withLimit limit).reply? r = some reply →
      ∃ reply', (s.withLimit limit').reply? r = some reply' ∧
        (reply.outcome ≠ .error .tooDeep →
          reply'.shown = reply.shown ∧ reply'.session.heap = reply.session.heap) ∧
        ∃ rest, reply'.printed = reply.printed ++ rest := by
  refine ⟨fun f e m => ⟨eval_mono hle, eval_printed_mono hle⟩, fun tokens hread => ?_, ?_⟩
  · exact readExpr_mono hle (Prod.ext rfl rfl) hread
  · intro s r reply hreply
    rw [Session.reply?_eq, Option.map_eq_some_iff] at hreply
    obtain ⟨source, hsource, rfl⟩ := hreply
    have hle' : (s.withLimit limit).limit ≤ limit' := hle
    refine ⟨(s.withLimit limit').eval source, ?_, fun hout => ?_, ?_⟩
    · rw [Session.reply?_eq, hsource, Option.map_some]
    · have hsame : (s.withLimit limit').eval source =
          ((s.withLimit limit).eval source).withLimit limit' := Session.eval_withLimit hle' hout
      rw [hsame]
      exact ⟨rfl, rfl⟩
    · exact Session.printed_eval_withLimit hle' source

/-- Calling a closure nests once more than making it. -/
theorem limit_conservative_call :
    let call : Expr := .list [.list [.lambda [] (.text "a")]]
    (eval 1 0 call {}).1 = .error .tooDeep ∧ eval 9 0 call {} = eval 2 0 call {} := by
  intro call
  have hvalue : (eval 2 0 call {}).1 = .ok (.text "a") := rfl
  refine ⟨rfl, ((limit_conservative (by decide)).1 0 call {}).1 ?_⟩
  rw [hvalue]
  exact nofun

end FrameLisp
