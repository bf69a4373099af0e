/-
FrameLisp/Proofs/Evaluation/Logged.lean

Runs with a log of the closures they make.

A log lists executions of `lambda` in the order of time.  A heap goes with a log
(`Heap.Logged`) if it has counted as many closures as the log has executions, and if every
closure in a bound value, at any depth, is what an execution of the log has given.  Evaluation
takes a heap that goes with a log to one that goes with the log continued by the executions in
the course of the run, and the value it gives is made up from there (`eval_logged`):

    h.Logged log  ⟹  h'.Logged (log ++ c.executions),

whatever the outcome is.  The same is then known at every call in the course of the run, with
the part of the log that was reached when the call was made (`Leads.within`).

The heap gives its count to a closure as identity.  The execution at the place `k` of a log
found the count at `k`, so identities and places are the same thing (`IsLog.same_iff`).
-/
import FrameLisp.Proofs.Evaluation.Timeline
import FrameLisp.Proofs.Heap.Parameters
import FrameLisp.Proofs.Session.Provenance

namespace FrameLisp

/-! ### Logs -/

/-- The value is what the execution at the place `k` of the log has given. -/
def Stems (log : List Call) (k : Nat) (v : Expr) : Prop :=
  ∃ c, log[k]? = some c ∧ c.run.1 = .ok v

/-- The executions of `lambda` in a session from its start, in the order of time: what was
executed had been read, and each of them found as many closures made as there are executions
in front of it. -/
structure IsLog (log : List Call) : Prop where
  executes {c : Call} : c ∈ log → c.executesLambda = true
  read {c : Call} : c ∈ log → c.expr.IsRead
  count {k : Nat} {c : Call} : log[k]? = some c → c.machine.heap.closures = k

/-- All closures in a value, at any depth, stem from the log. -/
def Expr.Logged (log : List Call) (v : Expr) : Prop :=
  v.ClosuresIn fun i params body g => ∃ k, Stems log k (.closure i params body g)

/-- The heap has counted the executions of the log, and all closures that are bound stem from
it. -/
structure Heap.Logged (log : List Call) (h : Heap) : Prop where
  isLog : IsLog log
  closures : h.closures = log.length
  bound : h.AllBound (Expr.Logged log)

section Logs

variable {log log' : List Call} {c : Call} {k k' : Nat} {v w : Expr}

theorem Stems.mono (hlog : log <+: log') (hv : Stems log k v) : Stems log' k v := by
  obtain ⟨c, hc, hrun⟩ := hv
  obtain ⟨rest, rfl⟩ := hlog
  refine ⟨c, ?_, hrun⟩
  rw [List.getElem?_append_left (List.getElem?_eq_some_iff.mp hc).1]
  exact hc

theorem Stems.lt_length (hv : Stems log k v) : k < log.length := by
  obtain ⟨c, hc, -⟩ := hv
  exact (List.getElem?_eq_some_iff.mp hc).1

/-- An execution gives one closure. -/
theorem Stems.unique (hv : Stems log k v) (hw : Stems log k w) : v = w := by
  obtain ⟨c, hc, hv⟩ := hv
  obtain ⟨d, hd, hw⟩ := hw
  cases hc.symm.trans hd
  cases hv.symm.trans hw
  rfl

theorem Expr.IsRead.body_of_lambda {params : List String} {body : Expr} {rest : List Expr}
    (hread : (Expr.list (.lambda params body :: rest)).IsRead) : body.IsRead :=
  hread.contains (.part List.mem_cons_self (.part (List.mem_singleton_self _) .self))

namespace IsLog

theorem nil : IsLog [] where
  executes hc := by cases hc
  read hc := by cases hc
  count hc := by cases hc

theorem append (hlog : IsLog log) (hc : c.executesLambda = true) (hread : c.expr.IsRead)
    (hcount : c.machine.heap.closures = log.length) : IsLog (log ++ [c]) where
  executes hd := by
    rcases List.mem_append.mp hd with hd | hd
    · exact hlog.executes hd
    · rwa [List.mem_singleton.mp hd]
  read hd := by
    rcases List.mem_append.mp hd with hd | hd
    · exact hlog.read hd
    · rwa [List.mem_singleton.mp hd]
  count {k d} hd := by
    by_cases hk : k < log.length
    · rw [List.getElem?_append_left hk] at hd
      exact hlog.count hd
    · have hle : log.length ≤ k := Nat.le_of_not_lt hk
      rw [List.getElem?_append_right hle, List.getElem?_singleton] at hd
      split at hd
      · next hzero =>
          cases hd
          rw [hcount]
          exact Nat.le_antisymm hle (Nat.sub_eq_zero_iff_le.mp hzero)
      · cases hd

/-- What stems from a log is a closure, with its place as identity and a body that was read. -/
theorem closure_of_stems (hlog : IsLog log) (hv : Stems log k v) :
    ∃ params body g, v = .closure k params body g ∧ body.IsRead := by
  obtain ⟨c, hc, hrun⟩ := hv
  have hmem : c ∈ log := List.mem_of_getElem? hc
  have hcount := hlog.count hc
  have hread := hlog.read hmem
  obtain ⟨l, f, params, body, rest, m, rfl⟩ := Call.executesLambda_cases (hlog.executes hmem)
  cases hrun
  cases hcount
  exact ⟨params, body, f, rfl, hread.body_of_lambda⟩

/-- **Closures are the same exactly if they stem from the same execution.** -/
theorem same_iff (hlog : IsLog log) (hv : Stems log k v) (hw : Stems log k' w) :
    v.same w = true ↔ k = k' := by
  obtain ⟨params, body, g, rfl, -⟩ := hlog.closure_of_stems hv
  obtain ⟨params', body', g', rfl, -⟩ := hlog.closure_of_stems hw
  simp only [Expr.same, beq_iff_eq]

end IsLog

/-! ### Values and heaps that go with a log -/

namespace Expr

theorem Logged.mono (hlog : log <+: log') (hv : v.Logged log) : v.Logged log' := by
  intro i params body g hclosure
  obtain ⟨k, hk⟩ := hv hclosure
  exact ⟨k, hk.mono hlog⟩

/-- The bodies of closures from a log were read. -/
theorem Logged.isRead_body {i g : Nat} {params : List String} {body : Expr}
    (hv : (Expr.closure i params body g).Logged log) (hlog : IsLog log) : body.IsRead := by
  obtain ⟨k, hk⟩ := hv .self
  obtain ⟨_, _, _, heq, hbody⟩ := hlog.closure_of_stems hk
  cases heq
  exact hbody

end Expr

namespace Heap.Logged

variable {h : Heap} {f : FrameId} {name : String}

theorem define (hh : h.Logged log) (hv : v.Logged log) : (h.define f name v).Logged log :=
  ⟨hh.isLog, hh.closures, hh.bound.define hv⟩

theorem enter (hh : h.Logged log) {captured : FrameId} {params : List String} {vs : List Expr}
    (hvs : ∀ v ∈ vs, v.Logged log) : (h.enter captured params vs).Logged log :=
  ⟨hh.isLog, hh.closures, hh.bound.enter hvs⟩

theorem lookup (hh : h.Logged log) (hv : h.lookup f name = .ok v) : v.Logged log := by
  obtain rfl | ⟨g, -, frame, hframe, hmem⟩ := Heap.lookup_cases hv
  · exact Expr.closuresIn_atom rfl
  · exact hh.bound hframe hmem

end Heap.Logged

end Logs

/-! ### Runs -/

/-- A run has left a heap that goes with the log, and given a value of `Q` if any. -/
structure LogsTo {α : Type} (Q : List Call → α → Prop) (log : List Call)
    (r : Except Stop α × Machine) : Prop where
  heap : r.2.heap.Logged log
  value {a} : r.1 = .ok a → Q log a

/-- A list of values that go with a log. -/
def AllLogged (log : List Call) (vs : List Expr) : Prop := ∀ v ∈ vs, v.Logged log

namespace LogsTo

variable {α β : Type} {Q : List Call → α → Prop} {R : List Call → β → Prop} {log : List Call}
  {m : Machine}

theorem pure {a : α} (hm : m.heap.Logged log) (ha : Q log a) :
    LogsTo Q log ((Pure.pure a : EvalM α) m) :=
  ⟨hm, fun h => by cases h; exact ha⟩

theorem throw {s : Stop} (hm : m.heap.Logged log) :
    LogsTo Q log ((MonadExcept.throw s : EvalM α) m) :=
  ⟨hm, fun h => by cases h⟩

/-- The log goes on with what follows on a step. -/
theorem bind {x : EvalM α} {k : α → EvalM β} {calls : α → Machine → List Call}
    (hx : LogsTo Q log (x m))
    (hk : ∀ a m', m'.heap.Logged log → Q log a → LogsTo R (log ++ calls a m') (k a m')) :
    LogsTo R (log ++ x.thereafter m calls) ((x >>= k) m) := by
  rcases hrun : x m with ⟨s | a, m'⟩
  · rw [Run.bind_error hrun, EvalM.thereafter_error hrun, List.append_nil]
    rw [hrun] at hx
    exact throw hx.heap
  · rw [Run.bind_ok hrun, EvalM.thereafter_ok hrun]
    rw [hrun] at hx
    exact hk a m' hx.heap (hx.value rfl)

/-- Nothing is executed in what follows. -/
theorem bind_silent {x : EvalM α} {k : α → EvalM β} (hx : LogsTo Q log (x m))
    (hk : ∀ a m', m'.heap.Logged log → Q log a → LogsTo R log (k a m')) :
    LogsTo R log ((x >>= k) m) := by
  have hbind : LogsTo R (log ++ x.thereafter m fun _ _ => []) ((x >>= k) m) := by
    refine hx.bind fun a m' hm' ha => ?_
    rw [List.append_nil]
    exact hk a m' hm' ha
  rwa [EvalM.thereafter_nil, List.append_nil] at hbind

end LogsTo

/-- Evaluation as far as a limit continues the log by the executions in its course. -/
def LogsWithin (l : Nat) : Prop :=
  ∀ {f e m log}, m.heap.Logged log → e.IsRead →
    LogsTo Expr.Logged (log ++ Call.executions ⟨l, f, e, m⟩) (eval l f e m)

section Runs

variable {l : Nat} {f : FrameId} {m : Machine} {log : List Call}

theorem lookup_logged (hm : m.heap.Logged log) (name : String) :
    LogsTo Expr.Logged log (EvalM.lookup f name m) := by
  rw [EvalM.lookup_apply]
  refine ⟨hm, fun {v} hv => ?_⟩
  cases hlookup : m.heap.lookup f name with
  | error cause =>
      rw [hlookup] at hv
      cases hv
  | ok w =>
      rw [hlookup] at hv
      cases hv
      exact hm.lookup hlookup

/-- The closure that is made stems from the execution that makes it. -/
theorem lambda_logged {params : List String} {body : Expr} {rest : List Expr}
    (hm : m.heap.Logged log) (hread : (Expr.list (.lambda params body :: rest)).IsRead) :
    LogsTo Expr.Logged (log ++ [⟨l + 1, f, .list (.lambda params body :: rest), m⟩])
      (eval (l + 1) f (.list (.lambda params body :: rest)) m) := by
  have hgrows : log <+: log ++ [⟨l + 1, f, .list (.lambda params body :: rest), m⟩] :=
    List.prefix_append _ _
  have hlog := hm.isLog.append (c := ⟨l + 1, f, .list (.lambda params body :: rest), m⟩) rfl hread
    hm.closures
  have hstems : Stems (log ++ [⟨l + 1, f, .list (.lambda params body :: rest), m⟩]) log.length
      (.closure m.heap.closures params body f) :=
    ⟨_, List.getElem?_concat_length, rfl⟩
  refine ⟨⟨hlog, ?_, fun _ _ _ _ hframe hmem => (hm.bound hframe hmem).mono hgrows⟩, ?_⟩
  · rw [List.length_append]
    exact congrArg (· + 1) hm.closures
  · intro v hv
    cases hv
    exact Expr.closuresIn_closure ⟨log.length, hstems⟩ hread.body_of_lambda

theorem mapM_logged (heval : LogsWithin l) {es : List Expr} (hm : m.heap.Logged log)
    (hes : ∀ e ∈ es, e.IsRead) :
    LogsTo AllLogged (log ++ (Call.inTurn l f es m).flatMap Call.executions)
      (es.mapM (eval l f) m) := by
  induction es generalizing m log with
  | nil =>
      rw [Call.inTurn, List.flatMap_nil, List.append_nil]
      exact .pure hm fun v hv => by cases hv
  | cons e es ih =>
      obtain ⟨he, hes⟩ := List.forall_mem_cons.mp hes
      rw [List.mapM_cons, Call.inTurn, List.flatMap_cons, EvalM.flatMap_thereafter,
        ← List.append_assoc]
      refine (heval hm he).bind fun v m' hm' hv => ?_
      refine (ih hm' hes).bind_silent fun vs m'' hm'' hvs => .pure hm'' ?_
      exact List.forall_mem_cons.mpr ⟨hv.mono (List.prefix_append _ _), hvs⟩

theorem apply_logged (heval : LogsWithin l) {p : Expr} {vs : List Expr} (hm : m.heap.Logged log)
    (hp : p.Logged log) (hvs : AllLogged log vs) :
    LogsTo Expr.Logged (log ++ (Call.ofBody l p vs m).flatMap Call.executions)
      (EvalM.apply (eval l) p vs m) := by
  cases p with
  | closure i params body captured =>
      by_cases hlen : vs.length = params.length
      · rw [EvalM.apply_entered hlen, Call.ofBody, if_pos hlen, List.flatMap_singleton]
        exact heval (hm.enter hvs) (hp.isRead_body hm.isLog)
      · rw [EvalM.apply_arity hlen, Call.ofBody, if_neg hlen, List.flatMap_nil, List.append_nil]
        exact ⟨hm, fun h => by cases h⟩
  | native p =>
      show LogsTo Expr.Logged (log ++ []) (EvalM.callPrimitive p vs m)
      rw [List.append_nil]
      unfold EvalM.callPrimitive
      rcases hcall : p.call vs with s | ⟨v, t⟩
      · exact .throw hm
      · refine ⟨hm, fun h => ?_⟩
        cases h
        exact (Primitive.call_built hcall).holds (fun _ => Expr.closuresIn_atom)
          (fun _ => Expr.closuresIn_list) hvs
  | _ =>
      show LogsTo Expr.Logged (log ++ []) _
      rw [List.append_nil]
      exact .throw hm

theorem cond_logged (heval : LogsWithin l) {a b c : Expr} {rest : List Expr}
    (hm : m.heap.Logged log) (hparts : ∀ d ∈ [a, b, c], d.IsRead) :
    LogsTo Expr.Logged (log ++ Call.executions ⟨l + 1, f, .list (.cond a b c :: rest), m⟩)
      (eval (l + 1) f (.list (.cond a b c :: rest)) m) := by
  rw [Call.executions_cond, ← List.append_assoc]
  refine (heval hm (hparts a (by simp))).bind fun v m' hm' _ => ?_
  cases v with
  | number x =>
      show LogsTo Expr.Logged _ ((if x != 0.0 then eval l f b else eval l f c) m')
      rw [Call.ofBranch, List.flatMap_singleton]
      split
      · exact heval hm' (hparts b (by simp))
      · exact heval hm' (hparts c (by simp))
  | _ =>
      show LogsTo Expr.Logged (_ ++ []) _
      rw [List.append_nil]
      exact .throw hm'

/-- A value that is stored. -/
theorem store_logged {x : EvalM Expr} {change : Expr → Heap → Heap}
    (hx : LogsTo Expr.Logged log (x m))
    (hchange : ∀ {v h}, h.Logged log → v.Logged log → (change v h).Logged log) :
    LogsTo Expr.Logged log
      ((x >>= fun v => EvalM.onHeap (change v) >>= fun _ => pure Expr.nil) m) :=
  hx.bind_silent fun v m' hm' hv => ⟨hchange hm' hv, fun h => by
    cases h
    exact Expr.closuresIn_atom rfl⟩

theorem form_logged (heval : LogsWithin l) {head : Expr} {args : List Expr}
    (hhead : head.isForm = true) (hm : m.heap.Logged log)
    (hread : (Expr.list (head :: args)).IsRead) :
    LogsTo Expr.Logged (log ++ Call.executions ⟨l + 1, f, .list (head :: args), m⟩)
      (eval (l + 1) f (.list (head :: args)) m) := by
  have hparts : ∀ d ∈ head.parts, d.IsRead := fun d hd =>
    hread.contains (.part List.mem_cons_self (.part hd .self))
  cases head with
  | nil | number | text | symbol | list | native | closure => cases hhead
  | lambda params body =>
      rw [Call.executions_lambda rfl]
      exact lambda_logged hm hread
  | quote content =>
      rw [Call.executions_of_made_nil rfl rfl, List.append_nil]
      exact .pure hm (hparts content (List.mem_singleton_self _)).closuresIn
  | define name e =>
      rw [Call.executions_define]
      exact store_logged (heval hm (hparts e (List.mem_singleton_self _))) .define
  | assign name e =>
      rw [Call.executions_assign]
      exact store_logged (heval hm (hparts e (List.mem_singleton_self _))) .define
  | cond a b c => exact cond_logged heval hm hparts

/-- **A run continues the log by the executions in its course**, whatever its outcome is, and
gives a value that goes with the log it has reached. -/
theorem eval_logged (l : Nat) : LogsWithin l := by
  induction l with
  | zero =>
      intro f e m log hm _
      rw [Call.executions_of_made_nil rfl rfl, List.append_nil]
      exact .throw hm
  | succ l ih =>
      intro f e m log hm hread
      cases e with
      | nil | number | text =>
          rw [Call.executions_of_made_nil rfl rfl, List.append_nil]
          exact .pure hm (Expr.closuresIn_atom rfl)
      | symbol name =>
          rw [Call.executions_of_made_nil rfl rfl, List.append_nil]
          exact lookup_logged hm name
      | quote content =>
          rw [Call.executions_of_made_nil rfl rfl, List.append_nil]
          exact .pure hm (hread.contains (.part (List.mem_singleton_self _) .self)).closuresIn
      | define | assign | lambda | cond | native | closure =>
          rw [Call.executions_of_made_nil rfl rfl, List.append_nil, eval_inert rfl]
          exact .throw hm
      | list items =>
          cases items with
          | nil =>
              rw [Call.executions_of_made_nil rfl rfl, List.append_nil]
              exact .throw hm
          | cons head args =>
              by_cases hhead : head.isForm = true
              · exact form_logged ih hhead hm hread
              · have hhead : head.isForm = false := by simpa using hhead
                have hparts : ∀ d ∈ head :: args, d.IsRead := fun d hd =>
                  hread.contains (.part hd .self)
                obtain ⟨hhead', hargs⟩ := List.forall_mem_cons.mp hparts
                rw [eval_apply hhead, Call.executions_apply hhead, ← List.append_assoc]
                refine (ih hm hhead').bind fun p m₁ hm₁ hp => ?_
                rw [← List.append_assoc]
                refine (mapM_logged ih hm₁ hargs).bind fun vs m₂ hm₂ hvs => ?_
                exact apply_logged ih hm₂ (hp.mono (List.prefix_append _ _)) hvs

end Runs

/-! ### Calls in the course of a run -/

namespace Call

variable {c d : Call} {log whole : List Call} {v : Expr}

/-- The call is made after some part of a log, with code that was read, and its executions are
those that come next in the log. -/
def Within (whole : List Call) (c : Call) : Prop :=
  ∃ log, c.machine.heap.Logged log ∧ c.expr.IsRead ∧ log ++ c.executions <+: whole

theorem Within.mono {whole' : List Call} (hc : c.Within whole) (hwhole : whole <+: whole') :
    c.Within whole' := by
  obtain ⟨log, hm, hread, hlog⟩ := hc
  exact ⟨log, hm, hread, hlog.trans hwhole⟩

theorem Within.bound (hc : c.Within whole) : c.machine.heap.AllBound (Expr.Logged whole) := by
  obtain ⟨log, hm, -, hlog⟩ := hc
  exact hm.bound.imp fun v hv => hv.mono ((List.prefix_append _ _).trans hlog)

theorem Within.value (hc : c.Within whole) (hrun : c.run.1 = .ok v) : v.Logged whole := by
  obtain ⟨log, hm, hread, hlog⟩ := hc
  exact ((eval_logged c.limit hm hread).value hrun).mono hlog

/-- **A closure that is made is the same as none that is bound at the time.** -/
theorem Within.fresh {k : Nat} (hc : c.Within whole) (hwhole : IsLog whole)
    (hk : whole[k]? = some c) (hv : c.run.1 = .ok v) :
    c.machine.heap.AllBound fun u => ∀ w, u.Contains w → v.same w = false := by
  obtain ⟨log, hm, -, hlog⟩ := hc
  have hlength : log.length = k := hm.closures.symm.trans (hwhole.count hk)
  have hstems : Stems whole k v := ⟨c, hk, hv⟩
  intro g frame name u hframe hmem w hw
  cases w with
  | closure i params body g =>
      -- it stems from the part of the log in front of the execution
      obtain ⟨k', hk'⟩ := hm.bound hframe hmem hw
      have hlt : k' < k := hlength ▸ hk'.lt_length
      have hsame := hwhole.same_iff hstems (hk'.mono ((List.prefix_append _ _).trans hlog))
      rw [Bool.eq_false_iff, Ne, hsame]
      exact Nat.ne_of_gt hlt
  | _ =>
      obtain ⟨params, body, g, rfl, -⟩ := hwhole.closure_of_stems hstems
      rfl

theorem Makes.within (hmakes : c.Makes d) (hc : c.Within whole) : d.Within whole := by
  obtain ⟨log, hm, hread, hwhole⟩ := hc
  have hpart : ∀ e ∈ c.expr.parts, e.IsRead := fun e he => hread.contains (.part he .self)
  cases hmakes with
  | define =>
      rw [executions_define] at hwhole
      have hform := hpart _ List.mem_cons_self
      exact ⟨log, hm, hform.contains (.part (List.mem_singleton_self _) .self), hwhole⟩
  | assign =>
      rw [executions_assign] at hwhole
      have hform := hpart _ List.mem_cons_self
      exact ⟨log, hm, hform.contains (.part (List.mem_singleton_self _) .self), hwhole⟩
  | test =>
      rw [executions_cond, ← List.append_assoc] at hwhole
      have hform := hpart _ List.mem_cons_self
      exact ⟨log, hm, hform.contains (.part List.mem_cons_self .self),
        (List.prefix_append _ _).trans hwhole⟩
  | @branch l f a b c rest m x m₁ ha =>
      have hform := hpart _ List.mem_cons_self
      have htest : a.IsRead := hform.contains (.part List.mem_cons_self .self)
      have hm₁ := (eval_logged l (f := f) hm htest).heap
      rw [ha] at hm₁
      rw [executions_cond, EvalM.thereafter_ok ha, ofBranch, List.flatMap_singleton,
        ← List.append_assoc] at hwhole
      refine ⟨_, hm₁, hform.contains (.part ?_ .self), hwhole⟩
      split <;> simp [Expr.parts]
  | head hhead =>
      rw [executions_apply hhead, ← List.append_assoc] at hwhole
      exact ⟨log, hm, hpart _ List.mem_cons_self, (List.prefix_append _ _).trans hwhole⟩
  | @argument l f head args m p m₁ before e after vs m₂ hhead hp hargs hbefore =>
      subst hargs
      have hm₁ := (eval_logged l (f := f) hm (hpart head List.mem_cons_self)).heap
      rw [hp] at hm₁
      have hread₁ : ∀ a ∈ before, a.IsRead := fun a ha => hpart a (by simp [Expr.parts, ha])
      have hm₂ := (mapM_logged (eval_logged l) (f := f) hm₁ hread₁).heap
      rw [hbefore] at hm₂
      rw [executions_apply hhead, EvalM.thereafter_ok hp, inTurn_append_cons hbefore,
        List.flatMap_append, List.flatMap_cons] at hwhole
      refine ⟨_, hm₂, hpart e (by simp [Expr.parts]), List.IsPrefix.trans ?_ hwhole⟩
      simp only [List.append_assoc, List.prefix_append_right_inj]
      exact List.prefix_append _ _
  | @body l f head args m i params body captured m₁ vs m₂ hhead hp hvs hlen =>
      have hclosure := eval_logged l (f := f) hm (hpart head List.mem_cons_self)
      rw [hp] at hclosure
      have hread₁ : ∀ a ∈ args, a.IsRead := fun a ha => hpart a (List.mem_cons_of_mem _ ha)
      have hargs := mapM_logged (eval_logged l) (f := f) hclosure.heap hread₁
      rw [hvs] at hargs
      rw [executions_apply hhead, EvalM.thereafter_ok hp, EvalM.thereafter_ok hvs, ofBody,
        if_pos hlen, List.flatMap_singleton, ← List.append_assoc, ← List.append_assoc] at hwhole
      exact ⟨_, hargs.heap.enter (hargs.value rfl),
        (hclosure.value rfl).isRead_body hclosure.heap.isLog, hwhole⟩

/-- **Every call in the course of a run finds a heap that goes with the log so far.** -/
theorem Leads.within (hleads : c.Leads d) (hc : c.Within whole) : d.Within whole := by
  induction hleads with
  | refl => exact hc
  | tail _ hmakes ih => exact hmakes.within ih

end Call

end FrameLisp
