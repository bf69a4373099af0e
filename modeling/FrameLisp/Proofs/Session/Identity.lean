/-
FrameLisp/Proofs/Session/Identity.lean

The identity of closures.

Two closures are the same if one execution of a `lambda` has made both, and only then.  The
executions of a session are listed request by request, in the order of time (`Session.log`),
and every value that turns up in it, bound or given, by a request or by a call in its course,
has its closures from this list (`TurnsUp.logged`).  Which execution a closure stems from is a
question of places in the list.  So two executions differ although they may be of the same
`lambda` in the same frame.

Nothing that passes a value on makes a new one of it (`PassedOn`): what is looked up is what
was bound, by `define`, by `set!` or as an argument, and what comes out of a list is what was
put into it.
-/
import FrameLisp.Proofs.Evaluation.Logged

namespace FrameLisp

namespace Session

/-! ### The executions of a session -/

/-- The calls by which roots are evaluated, in the order of time. -/
def begun (s : Session) : List Expr → List Call
  | [] => []
  | e :: rest =>
      ⟨s.limit, globalFrame, e, { heap := s.heap }⟩ ::
        match (s.evalExpr e).outcome with
        | .ok _ => (s.evalExpr e).session.begun rest
        | .error _ => []

/-- The executions of `lambda` in the course of a request. -/
def executions (s : Session) (r : Request) : List Call :=
  (s.begun (r.roots s.limit)).flatMap Call.executions

/-- The executions of `lambda` in the course of requests, one after the other. -/
def log (s : Session) : List Request → List Call
  | [] => []
  | r :: rest => s.executions r ++ (s.after r).log rest

/-- The values that turn up in the course of requests: those that are bound before or after a
request or whenever a call is made, and those that requests and calls give. -/
inductive TurnsUp : Session → List Request → Expr → Prop
  | bound {s rs g frame name v} :
      s.heap.frame? g = some frame → (name, v) ∈ frame.bindings → TurnsUp s rs v
  | replied {s r rs reply v} :
      s.reply? r = some reply → reply.outcome = .ok v → TurnsUp s (r :: rs) v
  | boundAtCall {s r rs c g frame name v} :
      s.Calls r c → c.machine.heap.frame? g = some frame → (name, v) ∈ frame.bindings →
      TurnsUp s (r :: rs) v
  | called {s r rs c v} : s.Calls r c → c.run.1 = .ok v → TurnsUp s (r :: rs) v
  | later {s r rs v} : TurnsUp (s.after r) rs v → TurnsUp s (r :: rs) v

variable {s : Session} {r : Request} {rs : List Request} {roots : List Expr} {e last v : Expr}
  {c : Call} {past : List Call}

theorem begun_cons_ok (hout : (s.evalExpr e).outcome = .ok v) :
    s.begun (e :: roots) =
      ⟨s.limit, globalFrame, e, { heap := s.heap }⟩ :: (s.evalExpr e).session.begun roots := by
  rw [begun, hout]

theorem begun_cons_error {stop : Stop} (hout : (s.evalExpr e).outcome = .error stop) :
    s.begun (e :: roots) = [⟨s.limit, globalFrame, e, { heap := s.heap }⟩] := by
  rw [begun, hout]

theorem mem_begun_iff : c ∈ s.begun roots ↔ s.Begins roots c := by
  constructor
  · intro hc
    induction roots generalizing s with
    | nil => cases hc
    | cons e rest ih =>
        cases hout : (s.evalExpr e).outcome with
        | error stop =>
            rw [begun_cons_error hout] at hc
            rw [List.mem_singleton.mp hc]
            exact .first
        | ok v =>
            rw [begun_cons_ok hout] at hc
            rcases List.mem_cons.mp hc with rfl | hc
            · exact .first
            · exact .next hout (ih hc)
  · intro hbegins
    induction hbegins with
    | first => exact List.mem_cons_self
    | next hout _ ih =>
        rw [begun_cons_ok hout]
        exact List.mem_cons_of_mem _ ih

theorem mem_executions_iff : c ∈ s.executions r ↔ s.Calls r c ∧ c.executesLambda = true := by
  rw [executions, List.mem_flatMap]
  constructor
  · rintro ⟨d, hd, hc⟩
    obtain ⟨hleads, hlambda⟩ := Call.mem_executions_iff.mp hc
    exact ⟨⟨d, mem_begun_iff.mp hd, hleads⟩, hlambda⟩
  · rintro ⟨⟨d, hbegins, hleads⟩, hlambda⟩
    exact ⟨d, mem_begun_iff.mpr hbegins, Call.mem_executions_iff.mpr ⟨hleads, hlambda⟩⟩

/-- **The log has the calls of the session that execute a `lambda`, and no others.** -/
theorem mem_log_iff : c ∈ s.log rs ↔
    c.executesLambda = true ∧
      ∃ before r after, rs = before ++ r :: after ∧ (s.afterAll before).Calls r c := by
  induction rs generalizing s with
  | nil => simp [log]
  | cons r rest ih =>
      rw [log, List.mem_append, mem_executions_iff, ih]
      constructor
      · rintro (⟨hcalls, hlambda⟩ | ⟨hlambda, before, r', after, rfl, hcalls⟩)
        · exact ⟨hlambda, [], r, rest, rfl, hcalls⟩
        · exact ⟨hlambda, r :: before, r', after, rfl, hcalls⟩
      · rintro ⟨hlambda, before, r', after, heq, hcalls⟩
        cases before with
        | nil =>
            cases heq
            exact .inl ⟨hcalls, hlambda⟩
        | cons r'' before =>
            cases heq
            exact .inr ⟨hlambda, before, r', after, rfl, hcalls⟩

/-! ### Requests that go with a log -/

theorem evalRoots_logged (hs : s.heap.Logged past) (hroots : ∀ e ∈ roots, e.IsRead)
    (hlast : last.Logged past) :
    LogsTo Expr.Logged (past ++ (s.begun roots).flatMap Call.executions)
      ((s.evalRoots last roots).outcome, { heap := (s.evalRoots last roots).session.heap }) := by
  induction roots generalizing s last past with
  | nil =>
      rw [begun, List.flatMap_nil, List.append_nil]
      refine ⟨hs, fun h => ?_⟩
      cases h
      exact hlast
  | cons e rest ih =>
      obtain ⟨he, hrest⟩ := List.forall_mem_cons.mp hroots
      have hexpr : LogsTo Expr.Logged
          (past ++ Call.executions ⟨s.limit, globalFrame, e, { heap := s.heap }⟩)
          (FrameLisp.eval s.limit globalFrame e { heap := s.heap }) := eval_logged s.limit hs he
      rw [evalRoots_cons]
      cases hout : (s.evalRoot e).outcome with
      | error stop =>
          rw [Reply.andThen_error hout, hout, session_evalRoot]
          rw [outcome_evalRoot] at hout
          rw [begun_cons_error hout, List.flatMap_singleton]
          exact ⟨hexpr.heap, fun h => by cases h⟩
      | ok value =>
          rw [Reply.andThen_ok hout, Reply.outcome_behind, Reply.session_behind, session_evalRoot]
          rw [outcome_evalRoot] at hout
          rw [begun_cons_ok hout, List.flatMap_cons, ← List.append_assoc]
          exact ih hexpr.heap hrest (hexpr.value hout)

theorem begins_within (hs : s.heap.Logged past) (hroots : ∀ e ∈ roots, e.IsRead)
    (hbegins : s.Begins roots c) :
    c.Within (past ++ (s.begun roots).flatMap Call.executions) := by
  induction hbegins generalizing past with
  | first =>
      refine ⟨past, hs, hroots _ List.mem_cons_self, ?_⟩
      rw [begun, List.flatMap_cons, ← List.append_assoc]
      exact List.prefix_append _ _
  | @next s e rest v c hout _ ih =>
      obtain ⟨he, hrest⟩ := List.forall_mem_cons.mp hroots
      rw [begun_cons_ok hout, List.flatMap_cons, ← List.append_assoc]
      exact ih (eval_logged s.limit (f := globalFrame) hs he).heap hrest

theorem calls_within (hs : s.heap.Logged past) (hc : s.Calls r c) :
    c.Within (past ++ s.executions r) := by
  obtain ⟨d, hbegins, hleads⟩ := hc
  exact hleads.within (begins_within hs (fun _ he => Request.isRead_of_mem_roots he) hbegins)

/-- What is left of a request is what its roots have left; there are none if it cannot be
read. -/
theorem after_eq (s : Session) (r : Request) :
    s.after r = (s.evalRoots .nil (r.roots s.limit)).session := by
  rw [after, reply?_eq, Request.roots]
  cases r.source? with
  | none => rfl
  | some source =>
      cases hread : readAll s.limit source with
      | error stop => simp [hread, eval_of_readAll_error hread, evalRoots]
      | ok roots => simp [hread, eval_of_readAll_ok hread]

theorem roots_logged (hs : s.heap.Logged past) :
    LogsTo Expr.Logged (past ++ s.executions r)
      ((s.evalRoots .nil (r.roots s.limit)).outcome,
        { heap := (s.evalRoots .nil (r.roots s.limit)).session.heap }) :=
  evalRoots_logged hs (fun _ he => Request.isRead_of_mem_roots he) (Expr.closuresIn_atom rfl)

theorem after_logged (hs : s.heap.Logged past) :
    (s.after r).heap.Logged (past ++ s.executions r) := by
  rw [after_eq]
  exact (roots_logged hs).heap

theorem reply_logged (hs : s.heap.Logged past) {reply : Reply} (hreply : s.reply? r = some reply)
    (hv : reply.outcome = .ok v) : v.Logged (past ++ s.executions r) := by
  obtain ⟨stop, rfl⟩ | rfl := reply?_cases hreply
  · cases hv
  · exact (roots_logged hs).value hv

/-- A session starts with nothing executed. -/
theorem start_logged (p : Policies) (limit : Nat) : (start p limit).heap.Logged [] := by
  have hclosures : ∀ (pairs : List (String × Expr)) (h : Heap),
      (h.defineAll globalFrame pairs).closures = h.closures := by
    intro pairs
    induction pairs with
    | nil => exact fun h => rfl
    | cons q rest ih => exact fun h => ih (h.define globalFrame q.1 q.2)
  have hnone : ∀ root ∈ ([] : List Expr), root.IsRead := fun _ hroot => by cases hroot
  refine ⟨.nil, hclosures _ _, fun g frame name v hframe hmem i params body c hclosure => ?_⟩
  -- no closure can be made from no roots
  have hready : (Invariant.ofRoots hnone).Ready ((start p limit).afterAll []) :=
    ready_ofRoots hnone (fun _ he => by exact he) p
  obtain ⟨root, hroot, -⟩ := hready.1 hframe hmem hclosure
  cases hroot

/-! ### Values of a session -/

theorem prefix_log_cons : past ++ s.executions r <+: past ++ s.log (r :: rs) := by
  rw [log, ← List.append_assoc]
  exact List.prefix_append _ _

/-- **All closures that turn up in a session stem from its log.** -/
theorem TurnsUp.logged (hs : s.heap.Logged past) (hv : s.TurnsUp rs v) :
    v.Logged (past ++ s.log rs) := by
  induction hv generalizing past with
  | bound hframe hmem => exact (hs.bound hframe hmem).mono (List.prefix_append _ _)
  | replied hreply hout => exact (reply_logged hs hreply hout).mono prefix_log_cons
  | boundAtCall hc hframe hmem => exact ((calls_within hs hc).bound hframe hmem).mono prefix_log_cons
  | called hc hrun => exact ((calls_within hs hc).value hrun).mono prefix_log_cons
  | later _ ih =>
      rw [log, ← List.append_assoc]
      exact ih (after_logged hs)

/-- Every execution of the log is a call that is made when the log has got to its place. -/
theorem within_of_mem_log (hs : s.heap.Logged past) (hc : c ∈ s.log rs) :
    c.Within (past ++ s.log rs) := by
  induction rs generalizing s past with
  | nil => cases hc
  | cons r rest ih =>
      rw [log, List.mem_append] at hc
      rw [log, ← List.append_assoc]
      rcases hc with hc | hc
      · exact (calls_within hs (mem_executions_iff.mp hc).1).mono (List.prefix_append _ _)
      · exact ih (after_logged hs) hc

theorem isLog_log (hs : s.heap.Logged past) : IsLog (past ++ s.log rs) := by
  induction rs generalizing s past with
  | nil =>
      rw [log, List.append_nil]
      exact hs.isLog
  | cons r rest ih =>
      rw [log, ← List.append_assoc]
      exact ih (after_logged hs)

end Session

/-! ### Values that are passed on -/

/-- Passing a value on hands on the value itself: by `define` and `set!`, as an argument, and
by the primitives for lists. -/
structure PassedOn (v : Expr) : Prop where
  define {h : Heap} {f name} : f < h.next → (h.define f name v).lookup f name = .ok v
  assign {h : Heap} {f name} : f < h.next → (h.assign f name v).lookup f name = .ok v
  parameter {h : Heap} {captured params args name} :
    args.length = params.length → LastArgument params args name v →
    (h.enter captured params args).lookup h.next name = .ok v
  list {before after} :
    Primitive.list.call (before ++ v :: after) = .ok (.list (before ++ v :: after), "")
  cons {xs} : Primitive.cons.call [v, .list xs] = .ok (.list (v :: xs), "")
  car {xs} : Primitive.car.call [.list (v :: xs)] = .ok (v, "")
  cdr {x before after} :
    Primitive.cdr.call [.list (x :: (before ++ v :: after))] =
      .ok (.list (before ++ v :: after), "")

theorem passedOn (v : Expr) : PassedOn v where
  define hf := Heap.lookup_of_get? (Heap.get?_define_self hf)
  assign hf := Heap.lookup_assign_self hf
  parameter {h captured params args name} hlen hlast := by
    have hentered : h.Entered captured params args _ := Heap.entered_enter hlen
    obtain ⟨w, hw, hlookup⟩ := hentered.parameter hlast.mem
    rw [hlookup, hlast.unique hw]
  list := rfl
  cons := rfl
  car := rfl
  cdr := rfl

/-- **Closures have an identity, and it is the execution that made them.**  Take a session with
whatever requests, and the log of its executions of `lambda` in the order of time: it has the
calls in the course of the requests that execute a `lambda`, and no others.  Every execution
gives a closure, which is the same as none that is bound at the time, at any depth.  Every
closure that turns up in the session, at any depth inside the values that are bound or given
there, stems from an execution of the log.  Two closures are the same exactly if they stem from
the same execution, that is from the same place of the log, and then they have the same
parameters, the same body and the same captured frame.  Passing a closure on hands on the
closure itself. -/
theorem closure_identity (p : Policies) (limit : Nat) (rs : List Request) :
    let s := Session.start p limit
    let log := s.log rs
    (∀ c, c ∈ log ↔ c.executesLambda = true ∧
      ∃ before r after, rs = before ++ r :: after ∧ (s.afterAll before).Calls r c) ∧
    (∀ k c, log[k]? = some c → ∃ v, Stems log k v ∧
      c.machine.heap.AllBound fun u => ∀ w, u.Contains w → v.same w = false) ∧
    (∀ u i params body g, s.TurnsUp rs u → u.Contains (.closure i params body g) →
      ∃ k, Stems log k (.closure i params body g)) ∧
    (∀ k k' v w, Stems log k v → Stems log k' w →
      (v.same w = true ↔ k = k') ∧ (v.same w = true → v = w)) ∧
    ∀ v, PassedOn v := by
  intro s log
  have hstart : s.heap.Logged [] := Session.start_logged p limit
  have hlog : IsLog log := Session.isLog_log hstart
  refine ⟨fun c => Session.mem_log_iff, ?_, ?_, ?_, passedOn⟩
  · intro k c hk
    have hmem : c ∈ log := List.mem_of_getElem? hk
    have hwithin : c.Within log := Session.within_of_mem_log hstart hmem
    obtain ⟨v, hv⟩ := Call.exists_value_of_executesLambda (hlog.executes hmem)
    exact ⟨v, ⟨c, hk, hv⟩, hwithin.fresh hlog hk hv⟩
  · intro u i params body g hu hclosure
    exact (hu.logged hstart) hclosure
  · intro k k' v w hv hw
    have hsame := hlog.same_iff hv hw
    refine ⟨hsame, fun h => ?_⟩
    cases hsame.mp h
    exact hv.unique hw

end FrameLisp
