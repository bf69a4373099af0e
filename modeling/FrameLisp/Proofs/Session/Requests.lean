/-
FrameLisp/Proofs/Session/Requests.lean

Sessions from request to request.

A session is asked to evaluate buffers and to load files, one after the other, and
goes on from whatever state the request before it has left.  A request comes to evaluating
the roots of its buffer one after the other in the global frame; a buffer that cannot be
read, or that is not text, comes to nothing.  So all that a session ever evaluates starts
from the roots of its requests (`Begins`), and what happens in the course of a request are
the calls to which these lead (`Calls`).

An invariant of evaluation that allows the roots of the requests is an invariant of the
session: it holds after any number of requests, whatever became of them
(`Invariant.ready_afterAll`), and whenever a call is made (`Invariant.admits_of_calls`).  A
request that stops was stopped by the reader or by such a call (`reply_stop`).  Most
invariants allow all code that can be read, and so hold in every session
(`Invariant.afterAll_ready`).

Likewise, sessions whose heaps are related by a coupling reply alike to all requests
(`Coupling.reply_shown_eq`, `Coupling.afterAll_paired`).
-/
import FrameLisp.Proofs.Evaluation.Calls
import FrameLisp.Proofs.Session.Buffers

namespace FrameLisp

/-- What a session can be asked to do. -/
inductive Request where
  | eval (source : String)
  | load (bytes : List UInt8)

namespace Session

/-- The reply to a request; none if the bytes of a file are not text. -/
def reply? (s : Session) : Request → Option Reply
  | .eval source => some (s.eval source)
  | .load bytes => (s.load bytes).toOption

/-- The session after a request. -/
def after (s : Session) (r : Request) : Session :=
  match s.reply? r with
  | some reply => reply.session
  | none => s

/-- The session after requests, one after the other. -/
def afterAll (s : Session) (rs : List Request) : Session := rs.foldl after s

end Session

/-! ### The roots of a request -/

namespace Request

/-- The text to evaluate; none if the bytes of a file are not text. -/
def source? : Request → Option String
  | .eval source => some source
  | .load bytes => (Text.ofBytes bytes).toOption

/-- The tokens of a buffer. -/
def tokens (r : Request) : List Token := (r.source?.map tokenize).getD []

/-- The roots of a buffer that is read to its end. -/
def roots (limit : Nat) (r : Request) : List Expr :=
  match r.source?.map (readAll limit) with
  | some (.ok roots) => roots
  | _ => []

/-- The roots of requests, one after the other. -/
def allRoots (limit : Nat) (rs : List Request) : List Expr := rs.flatMap (roots limit)

variable {limit : Nat} {r : Request} {e : Expr}

/-- Every root of a request is made up of tokens of its buffer. -/
theorem derives_of_mem_roots (he : e ∈ r.roots limit) :
    ∃ c, (∀ t ∈ c, t ∈ r.tokens) ∧ Derives c e := by
  unfold roots at he
  split at he
  · next roots hread =>
      obtain ⟨source, hsource, hread⟩ := Option.map_eq_some_iff.mp hread
      obtain ⟨-, rfl⟩ := readAll_ok_iff.mp hread
      have htokens : r.tokens = tokenize source := by
        rw [tokens, hsource, Option.map_some, Option.getD_some]
      rw [htokens]
      exact derives_of_mem_readRoots he
  · cases he

end Request

namespace Session

variable {s : Session} {r : Request} {reply : Reply}

/-- Every reply is the reply to a buffer. -/
theorem reply?_eq (s : Session) (r : Request) : s.reply? r = r.source?.map s.eval := by
  cases r with
  | eval source => rfl
  | load bytes =>
      rw [reply?, load, Request.source?]
      cases Text.ofBytes bytes <;> rfl

/-- A reply is that to a buffer which cannot be read, or to its roots. -/
theorem reply?_cases (hreply : s.reply? r = some reply) :
    (∃ stop : ReadStop, reply = { outcome := .error stop.toStop, session := s }) ∨
      reply = s.evalRoots .nil (r.roots s.limit) := by
  rw [reply?_eq, Option.map_eq_some_iff] at hreply
  obtain ⟨source, hsource, rfl⟩ := hreply
  cases hread : readAll s.limit source with
  | error stop => exact .inl ⟨stop, eval_of_readAll_error hread⟩
  | ok roots =>
      have hroots : r.roots s.limit = roots := by
        simp [Request.roots, hsource, hread]
      exact .inr (by rw [hroots, eval_of_readAll_ok hread])

theorem limit_after (s : Session) (r : Request) : (s.after r).limit = s.limit := by
  unfold after
  split
  · next reply hreply =>
      obtain ⟨stop, rfl⟩ | rfl := reply?_cases hreply
      · rfl
      · exact s.limit_evalRoots .nil _
  · rfl

theorem limit_afterAll (s : Session) (rs : List Request) : (s.afterAll rs).limit = s.limit := by
  induction rs generalizing s with
  | nil => rfl
  | cons r rest ih => exact (ih (s.after r)).trans (s.limit_after r)

/-! ### The calls of a session -/

/-- The calls by which roots are evaluated, one after the other, up to the first that
stops. -/
inductive Begins : Session → List Expr → Call → Prop
  | first {s e rest} : Begins s (e :: rest) ⟨s.limit, globalFrame, e, { heap := s.heap }⟩
  | next {s e rest v c} :
      (s.evalExpr e).outcome = .ok v → Begins (s.evalExpr e).session rest c →
      Begins s (e :: rest) c

/-- The calls that are made in the course of a request. -/
def Calls (s : Session) (r : Request) (c : Call) : Prop :=
  ∃ d, s.Begins (r.roots s.limit) d ∧ d.Leads c

/-- Roots are stopped by one of these calls. -/
theorem exists_begins_of_stop {last : Expr} {roots : List Expr} {stop : Stop}
    (hstop : (s.evalRoots last roots).outcome = .error stop) :
    ∃ c, s.Begins roots c ∧ c.run.1 = .error stop := by
  induction roots generalizing s last with
  | nil => cases hstop
  | cons e rest ih =>
      rw [evalRoots_cons] at hstop
      cases hout : (s.evalRoot e).outcome with
      | error stop' =>
          rw [Reply.andThen_error hout, outcome_evalRoot] at hstop
          exact ⟨_, .first, hstop⟩
      | ok value =>
          rw [Reply.andThen_ok hout, Reply.outcome_behind, session_evalRoot] at hstop
          obtain ⟨c, hbegins, hrun⟩ := ih hstop
          rw [outcome_evalRoot] at hout
          exact ⟨c, .next hout hbegins, hrun⟩

end Session

/-! ### Invariants of sessions -/

namespace Invariant

variable {I : Invariant} {s : Session} {r : Request}

/-- Code may go on running in the global frame of a session. -/
def Ready (I : Invariant) (s : Session) : Prop :=
  I.holds s.heap ∧ I.home s.heap.next Session.globalFrame

/-- The reply leaves a session that is ready, and gives only values that are allowed. -/
def Keeps (I : Invariant) (reply : Reply) : Prop :=
  I.Ready reply.session ∧ ∀ v, reply.outcome = .ok v → I.value reply.session.heap.next v

theorem start_ready {p : Policies} (hframe : I.holds (Heap.newFrame {} none p))
    (hglobal : I.home 1 Session.globalFrame)
    (hstandard : ∀ q ∈ standardBindings, I.value 1 q.2) (limit : Nat) :
    I.Ready (Session.start p limit) := by
  have hnext : (Session.start p limit).heap.next = 1 := Heap.next_defineAll
  refine ⟨I.holds_defineAll hframe hglobal hstandard, ?_⟩
  rwa [hnext]

theorem evalExpr_keeps (hs : I.Ready s) {e : Expr} (he : I.code s.heap.next e) :
    I.Keeps (s.evalExpr e) ∧ s.heap.next ≤ (s.evalExpr e).session.heap.next := by
  obtain ⟨hholds, hle, hvalue⟩ := I.eval_holds (m := { heap := s.heap }) hs.1 s.limit hs.2 he
  exact ⟨⟨⟨hholds, I.home_mono hle hs.2⟩, hvalue⟩, hle⟩

theorem evalRoots_keeps {roots : List Expr} {last : Expr} (hs : I.Ready s)
    (hroots : ∀ e ∈ roots, I.code s.heap.next e) (hlast : I.value s.heap.next last) :
    I.Keeps (s.evalRoots last roots) := by
  induction roots generalizing s last with
  | nil => exact ⟨hs, fun v hv => by cases hv; exact hlast⟩
  | cons e rest ih =>
      obtain ⟨⟨hready, hvalue⟩, hle⟩ := evalExpr_keeps hs (hroots e List.mem_cons_self)
      have hrest : ∀ d ∈ rest, I.code (s.evalExpr e).session.heap.next d :=
        fun d hd => I.code_mono hle (hroots d (List.mem_cons_of_mem _ hd))
      rw [Session.evalRoots_cons]
      cases hout : (s.evalRoot e).outcome with
      | error stop =>
          rw [Reply.andThen_error hout, Keeps, Session.session_evalRoot, hout]
          exact ⟨hready, nofun⟩
      | ok value =>
          rw [Reply.andThen_ok hout, Session.session_evalRoot]
          rw [Session.outcome_evalRoot] at hout
          exact ih hready hrest (hvalue value hout)

theorem admits_of_begins {roots : List Expr} {c : Call} (hs : I.Ready s)
    (hroots : ∀ e ∈ roots, I.code s.heap.next e) (hbegins : s.Begins roots c) : I.Admits c := by
  induction hbegins with
  | first => exact ⟨hs.1, hs.2, hroots _ List.mem_cons_self⟩
  | next _ _ ih =>
      obtain ⟨hkeeps, hle⟩ := evalExpr_keeps hs (hroots _ List.mem_cons_self)
      exact ih hkeeps.1 fun d hd => I.code_mono hle (hroots d (List.mem_cons_of_mem _ hd))

/-- **An invariant that allows the roots of a request holds whenever it makes a call.** -/
theorem admits_of_calls {c : Call} (hs : I.Ready s)
    (hroots : ∀ e ∈ r.roots s.limit, I.code s.heap.next e) (hc : s.Calls r c) : I.Admits c := by
  obtain ⟨d, hbegins, hleads⟩ := hc
  exact admits_of_leads hleads (admits_of_begins hs hroots hbegins)

theorem keeps_reply {reply : Reply} (hs : I.Ready s)
    (hroots : ∀ e ∈ r.roots s.limit, I.code s.heap.next e) (hreply : s.reply? r = some reply) :
    I.Keeps reply := by
  obtain ⟨stop, rfl⟩ | rfl := Session.reply?_cases hreply
  · exact ⟨hs, nofun⟩
  · exact evalRoots_keeps hs hroots (I.value_atom rfl)

/-- **An invariant that allows the roots of all requests holds throughout a session.** -/
theorem ready_afterAll {rs : List Request} (hs : I.Ready s)
    (hroots : ∀ e ∈ Request.allRoots s.limit rs, ∀ n, I.code n e) : I.Ready (s.afterAll rs) := by
  induction rs generalizing s with
  | nil => exact hs
  | cons r rest ih =>
      have hafter : I.Ready (s.after r) := by
        unfold Session.after
        split
        · next reply hreply =>
            refine (keeps_reply hs (fun e he => ?_) hreply).1
            exact hroots e (List.mem_flatMap.mpr ⟨r, List.mem_cons_self, he⟩) _
        · exact hs
      refine ih hafter fun e he => ?_
      rw [s.limit_after] at he
      obtain ⟨r', hr', he⟩ := List.mem_flatMap.mp he
      exact hroots e (List.mem_flatMap.mpr ⟨r', List.mem_cons_of_mem _ hr', he⟩)

/-! ### Invariants that allow all code that can be read -/

theorem code_of_mem_roots (hcode : ∀ {n ts e}, Derives ts e → I.code n e) {limit : Nat} {e : Expr}
    (he : e ∈ r.roots limit) (n : Nat) : I.code n e := by
  obtain ⟨ts, -, hderives⟩ := Request.derives_of_mem_roots he
  exact hcode hderives

theorem reply_keeps (hcode : ∀ {n ts e}, Derives ts e → I.code n e) (hs : I.Ready s)
    {reply : Reply} (hreply : s.reply? r = some reply) : I.Keeps reply :=
  keeps_reply hs (fun _ he => code_of_mem_roots hcode he _) hreply

/-- **An invariant that allows all code that can be read holds in every session.** -/
theorem afterAll_ready (hcode : ∀ {n ts e}, Derives ts e → I.code n e) (hs : I.Ready s)
    (rs : List Request) : I.Ready (s.afterAll rs) := by
  refine ready_afterAll hs fun e he n => ?_
  obtain ⟨r, -, he⟩ := List.mem_flatMap.mp he
  exact code_of_mem_roots hcode he n

/-- A request is stopped by the reader or by a call of evaluation. -/
theorem reply_stop (hcode : ∀ {n ts e}, Derives ts e → I.code n e) (hs : I.Ready s)
    {reply : Reply} {stop : Stop} (hreply : s.reply? r = some reply)
    (hstop : reply.outcome = .error stop) :
    (∃ cause : ReadStop, stop = cause.toStop) ∨ ∃ c, I.Admits c ∧ c.run.1 = .error stop := by
  obtain ⟨cause, rfl⟩ | rfl := Session.reply?_cases hreply
  · cases hstop
    exact .inl ⟨cause, rfl⟩
  · obtain ⟨c, hbegins, hrun⟩ := Session.exists_begins_of_stop hstop
    exact .inr ⟨c, admits_of_begins hs (fun _ he => code_of_mem_roots hcode he _) hbegins, hrun⟩

end Invariant

/-! ### Two sessions side by side -/

/-- What a reply shows, apart from the session to go on with. -/
def Reply.shown (reply : Reply) : Except Stop Expr × String × List TraceEntry :=
  (reply.outcome, reply.printed, reply.trace)

theorem Session.evalExpr_eq {s : Session} {e : Expr} {r : Except Stop Expr} {m : Machine}
    (hrun : FrameLisp.eval s.limit globalFrame e { heap := s.heap } = (r, m)) :
    s.evalExpr e = { outcome := r, session := { s with heap := m.heap }, printed := m.printed } := by
  show (let r := FrameLisp.eval s.limit globalFrame e { heap := s.heap }
    ({ outcome := r.1, session := { s with heap := r.2.heap }, printed := r.2.printed } : Reply)) = _
  rw [hrun]

namespace Coupling

variable {C : Coupling} {s₁ s₂ : Session}

/-- Sessions with related heaps and the same limit, in whose global frame code may run. -/
structure Paired (C : Coupling) (s₁ s₂ : Session) : Prop where
  rel : C.rel s₁.heap s₂.heap
  limit : s₁.limit = s₂.limit
  home : C.home s₁.heap.next Session.globalFrame

/-- Replies that show the same and leave sessions that are paired. -/
def RepliesAlike (C : Coupling) (r₁ r₂ : Reply) : Prop :=
  r₁.shown = r₂.shown ∧ C.Paired r₁.session r₂.session

theorem evalRoots_alike {roots : List Expr} (hs : C.Paired s₁ s₂)
    (hroots : ∀ e ∈ roots, C.code s₁.heap.next e) (last : Expr) :
    C.RepliesAlike (s₁.evalRoots last roots) (s₂.evalRoots last roots) := by
  induction roots generalizing s₁ s₂ last with
  | nil => exact ⟨rfl, hs⟩
  | cons e rest ih =>
      have hrelated : C.Related { heap := s₁.heap } { heap := s₂.heap } := ⟨hs.rel, rfl⟩
      obtain ⟨r, m₁, m₂, hrun₁, hrun₂, hm, hle, -⟩ :=
        C.eval_alike s₁.limit hrelated hs.home (hroots e List.mem_cons_self)
      rw [hs.limit] at hrun₂
      have hpaired : C.Paired { s₁ with heap := m₁.heap } { s₂ with heap := m₂.heap } :=
        ⟨hm.1, hs.limit, C.home_mono hle hs.home⟩
      rw [Session.evalRoots, Session.evalRoots, Session.evalExpr_eq hrun₁,
        Session.evalExpr_eq hrun₂]
      cases r with
      | error stop => exact ⟨by simp only [Reply.shown, hm.2], hpaired⟩
      | ok value =>
          obtain ⟨hshown, hlater⟩ := ih hpaired
            (fun d hd => C.code_mono hle (hroots d (List.mem_cons_of_mem _ hd))) value
          simp only [Reply.shown, Prod.mk.injEq] at hshown
          obtain ⟨houtcome, hprinted, htrace⟩ := hshown
          exact ⟨by simp only [Reply.shown, houtcome, hprinted, htrace, hm.2], hlater⟩

theorem buffer_alike (hcode : ∀ {n ts e}, Derives ts e → C.code n e) (hs : C.Paired s₁ s₂)
    (source : String) : C.RepliesAlike (s₁.eval source) (s₂.eval source) := by
  rw [Session.eval, Session.eval, ← hs.limit]
  cases hread : readAll s₁.limit source with
  | error stop => exact ⟨rfl, hs⟩
  | ok roots =>
      refine evalRoots_alike hs (fun e he => ?_) .nil
      obtain ⟨-, rfl⟩ := readAll_ok_iff.mp hread
      obtain ⟨ts, -, hderives⟩ := derives_of_mem_readRoots he
      exact hcode hderives

/-- **Sessions that are paired reply alike.** -/
theorem reply_shown_eq (hcode : ∀ {n ts e}, Derives ts e → C.code n e) (hs : C.Paired s₁ s₂)
    (r : Request) : (s₁.reply? r).map Reply.shown = (s₂.reply? r).map Reply.shown := by
  rw [s₁.reply?_eq, s₂.reply?_eq]
  cases r.source? with
  | none => rfl
  | some source => exact congrArg some (buffer_alike hcode hs source).1

theorem afterAll_paired (hcode : ∀ {n ts e}, Derives ts e → C.code n e) (hs : C.Paired s₁ s₂)
    (rs : List Request) : C.Paired (s₁.afterAll rs) (s₂.afterAll rs) := by
  induction rs generalizing s₁ s₂ with
  | nil => exact hs
  | cons r rest ih =>
      refine ih ?_
      rw [Session.after, Session.after, s₁.reply?_eq, s₂.reply?_eq]
      cases r.source? with
      | none => exact hs
      | some source => exact (buffer_alike hcode hs source).2

end Coupling

end FrameLisp
