/-
FrameLisp/Proofs/Session/Buffers.lean

Buffers one after the other, and in one piece.

A session evaluates the roots of a buffer one after the other, and buffers are evaluated
one after the other as well.  So it makes no difference where a buffer ends and the next
begins,

    eval (a ++ blanks ++ b)  =  eval a, and then eval b,

up to two points.  A buffer is read before any of it is evaluated, so if `b` cannot be
read, then nothing of `a` is evaluated either; and if `b` has no roots, then the value is
the one that `a` left (`eval_append_blank`).

On the side of the reader this is `readAll_append_blank`.  On the side of evaluation it is
`evalRoots_append`, where `andThen` is what "and then" means for replies.
-/
import FrameLisp.Proofs.Reading.Roots
import FrameLisp.Session

namespace FrameLisp

namespace Reply

/-- A reply with what was printed and evaluated before it. -/
def behind (later first : Reply) : Reply :=
  { later with
    printed := first.printed ++ later.printed
    trace := first.trace ++ later.trace }

section Fields

variable (later first : Reply)

@[simp] theorem outcome_behind : (later.behind first).outcome = later.outcome := rfl

@[simp] theorem session_behind : (later.behind first).session = later.session := rfl

@[simp] theorem printed_behind :
    (later.behind first).printed = first.printed ++ later.printed := rfl

@[simp] theorem trace_behind : (later.behind first).trace = first.trace ++ later.trace := rfl

end Fields

/-- A reply, and the next one if there is a value to go on with. -/
def andThen (reply : Reply) (next : Session → Expr → Reply) : Reply :=
  match reply.outcome with
  | .error _ => reply
  | .ok value => (next reply.session value).behind reply

variable {reply : Reply} {next : Session → Expr → Reply}

theorem andThen_error {stop : Stop} (h : reply.outcome = .error stop) :
    reply.andThen next = reply := by
  rw [andThen, h]

theorem andThen_ok {value : Expr} (h : reply.outcome = .ok value) :
    reply.andThen next = (next reply.session value).behind reply := by
  rw [andThen, h]

theorem behind_behind (r₁ r₂ r₃ : Reply) : (r₃.behind r₂).behind r₁ = r₃.behind (r₂.behind r₁) := by
  simp [behind, String.append_assoc]

theorem andThen_assoc (reply : Reply) (next later : Session → Expr → Reply) :
    (reply.andThen next).andThen later =
      reply.andThen fun s value => (next s value).andThen later := by
  cases hout : reply.outcome with
  | error stop => rw [andThen_error hout, andThen_error hout, andThen_error hout]
  | ok value =>
      rw [andThen_ok hout, andThen_ok hout]
      -- the second reply stops or goes on whatever was before it
      cases hnext : (next reply.session value).outcome with
      | error stop => rw [andThen_error hnext, andThen_error ((outcome_behind _ _).trans hnext)]
      | ok value' =>
          rw [andThen_ok hnext, andThen_ok ((outcome_behind _ _).trans hnext), behind_behind,
            session_behind]

end Reply

namespace Session

/-! ### Roots -/

/-- Evaluate one root. -/
def evalRoot (s : Session) (e : Expr) : Reply :=
  match (s.evalExpr e).outcome with
  | .error _ => { s.evalExpr e with trace := [.parsed e] }
  | .ok value => { s.evalExpr e with trace := [.parsed e, .result value] }

@[simp] theorem outcome_evalRoot (s : Session) (e : Expr) :
    (s.evalRoot e).outcome = (s.evalExpr e).outcome := by
  unfold evalRoot
  split <;> rfl

@[simp] theorem session_evalRoot (s : Session) (e : Expr) :
    (s.evalRoot e).session = (s.evalExpr e).session := by
  unfold evalRoot
  split <;> rfl

@[simp] theorem printed_evalRoot (s : Session) (e : Expr) :
    (s.evalRoot e).printed = (s.evalExpr e).printed := by
  unfold evalRoot
  split <;> rfl

theorem evalRoots_nil (s : Session) (last : Expr) :
    s.evalRoots last [] = { outcome := .ok last, session := s } := rfl

/-- The first root, and then the others. -/
theorem evalRoots_cons (s : Session) (last e : Expr) (rest : List Expr) :
    s.evalRoots last (e :: rest) =
      (s.evalRoot e).andThen fun s' value => s'.evalRoots value rest := by
  cases hout : (s.evalExpr e).outcome <;>
    simp [evalRoots, evalRoot, Reply.andThen, Reply.behind, hout]

theorem evalRoots_singleton (s : Session) (last e : Expr) :
    s.evalRoots last [e] = s.evalRoot e := by
  rw [evalRoots_cons]
  generalize s.evalRoot e = reply
  cases hout : reply.outcome with
  | error stop => rw [Reply.andThen_error hout]
  | ok value =>
      rw [Reply.andThen_ok hout, evalRoots_nil, ← hout]
      simp [Reply.behind]

/-- **Roots are evaluated one after the other.** -/
theorem evalRoots_append (s : Session) (last : Expr) (es ds : List Expr) :
    s.evalRoots last (es ++ ds) =
      (s.evalRoots last es).andThen fun s' value => s'.evalRoots value ds := by
  induction es generalizing s last with
  | nil =>
      rw [evalRoots_nil, Reply.andThen_ok (by rfl)]
      simp [Reply.behind]
  | cons e es ih =>
      rw [List.cons_append, evalRoots_cons, evalRoots_cons, Reply.andThen_assoc]
      simp only [ih]

/-- Where there are roots, what the value would be without any does not matter. -/
theorem evalRoots_last (s : Session) (last last' : Expr) {roots : List Expr} (hne : roots ≠ []) :
    s.evalRoots last roots = s.evalRoots last' roots := by
  cases roots with
  | nil => exact absurd rfl hne
  | cons e rest => rw [evalRoots_cons, evalRoots_cons]

theorem limit_evalRoots (s : Session) (last : Expr) (roots : List Expr) :
    (s.evalRoots last roots).session.limit = s.limit := by
  induction roots generalizing s last with
  | nil => rfl
  | cons e rest ih =>
      rw [evalRoots_cons]
      cases hout : (s.evalRoot e).outcome with
      | error stop =>
          rw [Reply.andThen_error hout, session_evalRoot]
          rfl
      | ok value =>
          rw [Reply.andThen_ok hout, session_evalRoot]
          exact ih (s.evalExpr e).session value

/-! ### Buffers -/

variable {s : Session}

theorem eval_of_readAll_ok {source : String} {roots : List Expr}
    (h : readAll s.limit source = .ok roots) : s.eval source = s.evalRoots .nil roots := by
  rw [eval, h]

/-- Of a buffer only its tokens count. -/
theorem eval_congr {a b : String} (h : tokenize a = tokenize b) : s.eval a = s.eval b := by
  rw [eval, eval, readAll, readAll, h]

/-- A buffer that cannot be read has no effect. -/
theorem eval_of_readAll_error {source : String} {stop : ReadStop}
    (h : readAll s.limit source = .error stop) :
    s.eval source = { outcome := .error stop.toStop, session := s } := by
  rw [eval, h]

end Session

/-- **Two buffers in one piece.**  Let `a` be a text that can be read to its end, and let
there be blanks between `a` and `b`.  If `b` cannot be read, because of a fault or for
nesting too deep, then evaluating the whole stops for the same reason, prints nothing and
leaves the session as it was.  Otherwise it is evaluating `a` and then, if that gives a
value, evaluating `b` in the session that `a` leaves: what was printed is what the two
print, the session is the one that `b` leaves, and the value is that of `b`, or that of `a`
if `b` has no roots.  And any text that cannot be read has no effect. -/
theorem eval_append_blank {s : Session} {a w : String} {roots : List Expr}
    (ha : readAll s.limit a = .ok roots) (hne : w ≠ "")
    (hw : ∀ c ∈ w.toList, Text.isBlank c = true) (b : String) :
    let whole := s.eval (a ++ w ++ b)
    let first := s.eval a
    let second := first.session.eval b
    (∀ stop, readAll s.limit b = .error stop →
      whole = { outcome := .error stop.toStop, session := s, printed := "", trace := [] }) ∧
    (∀ later, readAll s.limit b = .ok later →
      (∀ stop, first.outcome = .error stop → whole = first) ∧
      ∀ value, first.outcome = .ok value →
        whole.outcome = (if later.isEmpty then .ok value else second.outcome) ∧
        whole.session = second.session ∧
        whole.printed = first.printed ++ second.printed ∧
        whole.trace = first.trace ++ second.trace) ∧
    ∀ source stop, readAll s.limit source = .error stop →
      s.eval source = { outcome := .error stop.toStop, session := s, printed := "", trace := [] } := by
  intro whole first second
  have hread := readAll_append_blank ha hne hw b
  refine ⟨fun stop hb => ?_, fun later hb => ?_, fun source stop => Session.eval_of_readAll_error⟩
  · rw [hb] at hread
    exact Session.eval_of_readAll_error hread
  · rw [hb] at hread
    have hfirst : first = s.evalRoots .nil roots := Session.eval_of_readAll_ok ha
    have hwhole : whole = first.andThen fun s' value => s'.evalRoots value later := by
      rw [hfirst, ← Session.evalRoots_append]
      exact Session.eval_of_readAll_ok hread
    refine ⟨fun stop hstop => ?_, fun value hvalue => ?_⟩
    · rw [hwhole, Reply.andThen_error hstop]
    · rw [hwhole, Reply.andThen_ok hvalue]
      -- `b` is read in the session that `a` leaves as it was read at first
      have hlimit : first.session.limit = s.limit := by
        rw [hfirst]
        exact s.limit_evalRoots .nil roots
      have hsecond : second = first.session.evalRoots .nil later := by
        apply Session.eval_of_readAll_ok
        rw [hlimit]
        exact hb
      rw [hsecond]
      cases later with
      | nil => simp [Session.evalRoots_nil]
      | cons e rest => simp [first.session.evalRoots_last value .nil (List.cons_ne_nil e rest)]

/-- Behind a definition there is a parenthesis too many. -/
theorem eval_append_blank_stray :
    (Session.start {} 9).eval ("(define x -0.0)" ++ "\n" ++ ")") =
      { outcome := .error (.fault (.unreadable .strayClosing))
        session := Session.start {} 9, printed := "", trace := [] } := by
  generalize hs : Session.start {} 9 = s
  have hlimit : s.limit = 9 := by rw [← hs]; rfl
  have htokens : tokenize "(define x -0.0)" = ["(", "define", "x", "-0.0", ")"] := by decide
  have hstray : tokenize ")" = [")"] := by decide
  have hnumber : Number.ofToken? "-0.0" = some (Number.ofPattern true 0) := rfl
  have hderives : Derives ["(", "define", "x", "-0.0", ")"]
      (.list [.define "x" (.number (Number.ofPattern true 0))]) :=
    .list (.cons (.define ⟨by decide, by decide⟩ (.number hnumber)) .nil) (by simp [FormAlone])
  have hexpr : readExpr 9 ["(", "define", "x", "-0.0", ")"] =
      (.ok (.list [.define "x" (.number (Number.ofPattern true 0))]), []) :=
    hderives.readExpr_append 9 (by decide) []
  have ha : readAll s.limit "(define x -0.0)" =
      .ok [.list [.define "x" (.number (Number.ofPattern true 0))]] := by
    rw [readAll_ok_iff, hlimit, htokens, readRoots_ok hexpr]
    exact ⟨rfl, rfl⟩
  have hw : ∀ c ∈ "\n".toList, Text.isBlank c = true := by
    have hlist : "\n".toList = ['\n'] := rfl
    rw [hlist]
    exact List.forall_mem_singleton.mpr rfl
  have hb : readAll s.limit ")" = .error (.fault .strayClosing) := by
    rw [readAll_error_iff, hlimit, hstray, readRoots_error (readExpr_closing 8 [])]
  exact (eval_append_blank ha (by decide) hw ")").1 _ hb

end FrameLisp
