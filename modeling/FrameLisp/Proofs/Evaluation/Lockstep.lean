/-
FrameLisp/Proofs/Evaluation/Lockstep.lean

A run and its variation, side by side.

A `Variation` changes what a run starts from: it may nest deeper, it starts from another
heap, and other text was printed before.  The change of the heap goes along with binding
a name, counting a closure and entering the frame of a call.  It need not go along with
looking a name up and with `set!`, where policies have a say; so the two runs go in
lockstep only until they part, at such a step or where only one of them is stopped by its
limit.

When they part is for the use of it to say, by a property `P` of calls that is passed on
from a call to the one that makes it (`Parting`).  Then

    ¬P c  ⟹  the variation of c ends like c and leaves the variation of its machine

(`Variation.lockstep`).  The first use is with `P` empty: what was printed before a run
is left in place and makes no difference to it (`eval_printed`).
-/
import FrameLisp.Proofs.Evaluation.Calls

namespace FrameLisp

/-- A change of what runs start from. -/
structure Variation where
  /-- How much deeper runs may nest. -/
  extra : Nat
  heap : Heap → Heap
  /-- What was printed in addition, before everything else. -/
  before : String
  next_heap (h : Heap) : (heap h).next = h.next
  closures_heap (h : Heap) : (heap h).closures = h.closures
  heap_define (h : Heap) (f : FrameId) (name : String) (v : Expr) :
    heap (h.define f name v) = (heap h).define f name v
  heap_countClosure (h : Heap) : heap h.countClosure = (heap h).countClosure
  heap_enter (h : Heap) (captured : FrameId) (params : List String) (args : List Expr) :
    heap (h.enter captured params args) = (heap h).enter captured params args

namespace Variation

/-- The variation of a machine. -/
def machine (V : Variation) (m : Machine) : Machine := ⟨V.heap m.heap, V.before ++ m.printed⟩

/-- The variation of a call. -/
def call (V : Variation) (c : Call) : Call :=
  ⟨V.extra + c.limit, c.frame, c.expr, V.machine c.machine⟩

variable {V : Variation} {α β : Type} {m m' : Machine}

/-- What `x` does from `m`, `y` does from its variation. -/
def Keeps (V : Variation) (x y : EvalM α) (m : Machine) : Prop :=
  y (V.machine m) = ((x m).1, V.machine (x m).2)

theorem Keeps.eq {x y : EvalM α} {r : Except Stop α} (h : V.Keeps x y m) (hx : x m = (r, m')) :
    y (V.machine m) = (r, V.machine m') := by
  have hy : y (V.machine m) = ((x m).1, V.machine (x m).2) := h
  rw [hy, hx]

/-! ### Steps of a run -/

theorem keeps_pure (a : α) : V.Keeps (pure a) (pure a) m := rfl

theorem keeps_throw (s : Stop) : V.Keeps (throw s : EvalM α) (throw s) m := rfl

/-- What comes next has to be kept only from where the first run has led. -/
theorem Keeps.bind {x y : EvalM α} {k l : α → EvalM β} (hx : V.Keeps x y m)
    (hk : ∀ a m', x m = (.ok a, m') → y (V.machine m) = (.ok a, V.machine m') →
      V.Keeps (k a) (l a) m') :
    V.Keeps (x >>= k) (y >>= l) m := by
  show (y >>= l) (V.machine m) = (((x >>= k) m).1, V.machine ((x >>= k) m).2)
  rcases hx₁ : x m with ⟨s | a, m'⟩
  · rw [Run.bind_error hx₁, Run.bind_error (hx.eq hx₁)]
  · rw [Run.bind_ok hx₁, Run.bind_ok (hx.eq hx₁)]
    exact hk a m' hx₁ (hx.eq hx₁)

theorem keeps_onHeap {change change' : Heap → Heap}
    (h : V.heap (change m.heap) = change' (V.heap m.heap)) (a : α) :
    V.Keeps (EvalM.onHeap change >>= fun _ => pure a) (EvalM.onHeap change' >>= fun _ => pure a)
      m := by
  show (Except.ok a, (⟨change' (V.heap m.heap), V.before ++ m.printed⟩ : Machine)) =
    (.ok a, ⟨V.heap (change m.heap), V.before ++ m.printed⟩)
  rw [h]

variable {f : FrameId}

theorem keeps_lookup {name : String}
    (h : (V.heap m.heap).lookup f name = m.heap.lookup f name) :
    V.Keeps (EvalM.lookup f name) (EvalM.lookup f name) m := by
  show EvalM.lookup f name (V.machine m) = _
  rw [EvalM.lookup_apply, EvalM.lookup_apply]
  show ((V.heap m.heap).lookup f name |>.mapError Stop.fault, V.machine m) = _
  rw [h]

/-- The closure that is made has the same identity. -/
theorem keeps_makeClosure (params : List String) (body : Expr) :
    V.Keeps (EvalM.makeClosure f params body) (EvalM.makeClosure f params body) m := by
  show (Except.ok (Expr.closure (V.heap m.heap).closures params body f),
      (⟨(V.heap m.heap).countClosure, V.before ++ m.printed⟩ : Machine)) =
    (.ok (.closure m.heap.closures params body f),
      ⟨V.heap m.heap.countClosure, V.before ++ m.printed⟩)
  rw [V.closures_heap, V.heap_countClosure]

theorem keeps_callPrimitive (p : Primitive) (args : List Expr) :
    V.Keeps (EvalM.callPrimitive p args) (EvalM.callPrimitive p args) m := by
  unfold EvalM.callPrimitive
  rcases p.call args with s | ⟨v, t⟩
  · exact keeps_throw s
  · show (Except.ok v, (⟨V.heap m.heap, V.before ++ m.printed ++ t⟩ : Machine)) =
      (.ok v, ⟨V.heap m.heap, V.before ++ (m.printed ++ t)⟩)
    rw [String.append_assoc]

variable {evalIn evalIn' : FrameId → Expr → EvalM Expr}

theorem keeps_apply {p : Expr} {args : List Expr}
    (hbody : ∀ i params body captured, p = .closure i params body captured →
      args.length = params.length →
      V.Keeps (evalIn m.heap.next body) (evalIn' m.heap.next body)
        { m with heap := m.heap.enter captured params args }) :
    V.Keeps (EvalM.apply evalIn p args) (EvalM.apply evalIn' p args) m := by
  cases p with
  | native p => exact keeps_callPrimitive p args
  | closure i params body captured =>
      by_cases hlen : args.length = params.length
      · have hb := hbody i params body captured rfl hlen
        simp only [EvalM.apply, if_pos hlen]
        show (EvalM.enter captured params args >>= fun g => evalIn' g body) (V.machine m) = _
        -- the frame that is added has the same number
        have hnext : (V.machine m).heap.next = m.heap.next := V.next_heap m.heap
        have hentered : (⟨(V.machine m).heap.enter captured params args, (V.machine m).printed⟩ :
            Machine) = V.machine ⟨m.heap.enter captured params args, m.printed⟩ := by
          simp only [machine, V.heap_enter]
        rw [Run.bind_ok (EvalM.enter_apply captured params args _), hnext, hentered,
          Run.bind_ok (EvalM.enter_apply captured params args m)]
        exact hb
      · simp only [EvalM.apply, if_neg hlen]
        exact keeps_throw _
  | _ => exact keeps_throw _

/-- Arguments from left to right; each has to be kept only from where those in front of it
have led. -/
theorem keeps_mapM {x y : Expr → EvalM Expr} {args : List Expr}
    (hargs : ∀ before e after vs m', args = before ++ e :: after →
      before.mapM x m = (.ok vs, m') → before.mapM y (V.machine m) = (.ok vs, V.machine m') →
      V.Keeps (x e) (y e) m') :
    V.Keeps (args.mapM x) (args.mapM y) m := by
  induction args generalizing m with
  | nil => exact keeps_pure _
  | cons e args ih =>
      rw [List.mapM_cons, List.mapM_cons]
      have he : V.Keeps (x e) (y e) m := hargs [] e args [] m rfl rfl rfl
      refine he.bind fun v m₁ hx hy => ?_
      have hrest : V.Keeps (args.mapM x) (args.mapM y) m₁ := by
        apply ih
        intro before d after vs m₂ heq hbefore hbefore'
        have hcons : e :: args = (e :: before) ++ d :: after := by rw [heq, List.cons_append]
        exact hargs (e :: before) d after (v :: vs) m₂ hcons (Run.mapM_cons_ok hx hbefore)
          (Run.mapM_cons_ok hy hbefore')
      exact hrest.bind fun vs m₂ _ _ => keeps_pure (v :: vs)

/-- The rest of a conditional, after its test has given `v`. -/
theorem keeps_branch {v b c : Expr} :
    (∀ x : Float, v = .number x →
      V.Keeps (evalIn f (if x != 0.0 then b else c)) (evalIn' f (if x != 0.0 then b else c)) m) →
    V.Keeps
      (match v with
        | .number x => if x != 0.0 then evalIn f b else evalIn f c
        | v => EvalM.fail (.testNotNumber v))
      (match v with
        | .number x => if x != 0.0 then evalIn' f b else evalIn' f c
        | v => EvalM.fail (.testNotNumber v))
      m := by
  intro hbranch
  cases v with
  | number x =>
      have hb := hbranch x rfl
      by_cases hx : (x != 0.0) = true
      · simp only [if_pos hx] at hb ⊢
        exact hb
      · simp only [if_neg hx] at hb ⊢
        exact hb
  | _ => exact keeps_throw _

/-! ### Whole runs -/

/-- The run of a call and that of its variation part only where `P` says so, and a call that
makes one at which they part is itself one. -/
structure Parting (V : Variation) (P : Call → Prop) : Prop where
  limit (f : FrameId) (e : Expr) (m : Machine) : V.extra = 0 ∨ P ⟨0, f, e, m⟩
  lookup (l : Nat) (f : FrameId) (name : String) (m : Machine) :
    (V.heap m.heap).lookup f name = m.heap.lookup f name ∨ P ⟨l + 1, f, .symbol name, m⟩
  assign {l : Nat} {f : FrameId} {e v : Expr} {m m' : Machine} (name : String)
    (rest : List Expr) : eval l f e m = (.ok v, m') →
    (V.heap m'.heap).target f name = m'.heap.target f name ∨
      P ⟨l + 1, f, .list (.assign name e :: rest), m⟩
  made {c d : Call} : c.Makes d → (V.call c).Makes (V.call d) → P d → P c

/-- The variation of a call ends like the call itself, and leaves the variation of what it
leaves. -/
def Agrees (V : Variation) (c : Call) : Prop :=
  (V.call c).run = (c.run.1, V.machine c.run.2)

variable {P : Call → Prop} {l : Nat}

/-- A special form in front of a list, if all calls it makes agree. -/
theorem agrees_form (hP : V.Parting P) {head : Expr} {args : List Expr}
    (hhead : head.isForm = true) (hnot : ¬P ⟨l + 1, f, .list (head :: args), m⟩)
    (hmade : ∀ d, Call.Makes ⟨l + 1, f, .list (head :: args), m⟩ d →
      (V.call ⟨l + 1, f, .list (head :: args), m⟩).Makes (V.call d) → V.Agrees d) :
    V.Keeps (eval (l + 1) f (.list (head :: args)))
      (eval (V.extra + l + 1) f (.list (head :: args))) m := by
  cases head with
  | nil | number | text | symbol | list | native | closure => cases hhead
  | quote content => exact keeps_pure content
  | lambda params body => exact keeps_makeClosure params body
  | define name e =>
      have he : V.Keeps (eval l f e) (eval (V.extra + l) f e) m := hmade _ .define .define
      exact he.bind fun v m' _ _ => keeps_onHeap (V.heap_define m'.heap f name v) Expr.nil
  | assign name e =>
      have he : V.Keeps (eval l f e) (eval (V.extra + l) f e) m := hmade _ .assign .assign
      refine he.bind fun v m' hv _ => keeps_onHeap ?_ Expr.nil
      have htarget : (V.heap m'.heap).target f name = m'.heap.target f name :=
        (hP.assign name args hv).resolve_right hnot
      rw [Heap.assign, Heap.assign, htarget]
      exact V.heap_define _ _ _ _
  | cond a b c =>
      have ha : V.Keeps (eval l f a) (eval (V.extra + l) f a) m := hmade _ .test .test
      refine ha.bind fun v m' hv hv' => keeps_branch fun x hx => ?_
      subst hx
      exact hmade _ (.branch hv) (.branch hv')

/-- **A run and its variation go in lockstep until they part.** -/
theorem lockstep (hP : V.Parting P) (c : Call) : ¬P c → V.Agrees c := by
  induction c using Call.makes_induction with
  | hstep c ih =>
      intro hnot
      have hmade : ∀ d, c.Makes d → (V.call c).Makes (V.call d) → V.Agrees d :=
        fun d hd hd' => ih d hd fun hPd => hnot (hP.made hd hd' hPd)
      obtain ⟨limit, f, e, m⟩ := c
      cases limit with
      | zero =>
          have hextra : V.extra = 0 := (hP.limit f e m).resolve_right hnot
          show eval V.extra f e (V.machine m) = _
          rw [hextra]
          rfl
      | succ l =>
          show V.Keeps (eval (l + 1) f e) (eval (V.extra + l + 1) f e) m
          cases e with
          | nil | number | text | quote => exact keeps_pure _
          | symbol name => exact keeps_lookup ((hP.lookup l f name m).resolve_right hnot)
          | define | assign | lambda | cond | native | closure =>
              rw [eval_inert rfl, eval_inert rfl]
              exact keeps_throw _
          | list items =>
              cases items with
              | nil => exact keeps_throw _
              | cons head args =>
                  by_cases hhead : head.isForm = true
                  · exact agrees_form hP hhead hnot hmade
                  · have hhead : head.isForm = false := by simpa using hhead
                    rw [eval_apply hhead, eval_apply hhead]
                    have hp : V.Keeps (eval l f head) (eval (V.extra + l) f head) m :=
                      hmade _ (.head hhead) (.head hhead)
                    refine hp.bind fun p m₁ hp₁ hp₁' => ?_
                    have hargs : V.Keeps (args.mapM (eval l f)) (args.mapM (eval (V.extra + l) f))
                        m₁ := by
                      apply keeps_mapM
                      intro before d after vs m₂ heq hvs hvs'
                      exact hmade _ (.argument hhead hp₁ heq hvs) (.argument hhead hp₁' heq hvs')
                    refine hargs.bind fun vs m₂ hvs hvs' => keeps_apply ?_
                    rintro i params body captured rfl hlen
                    have hbody := Call.Makes.body hhead hp₁' hvs' hlen
                    -- the variation enters the same frame
                    have hentered : V.call ⟨l, m₂.heap.next, body,
                        { m₂ with heap := m₂.heap.enter captured params vs }⟩ =
                        ⟨V.extra + l, (V.machine m₂).heap.next, body,
                          { V.machine m₂ with
                            heap := (V.machine m₂).heap.enter captured params vs }⟩ := by
                      simp only [call, machine, V.heap_enter, V.next_heap]
                    refine hmade _ (.body hhead hp₁ hvs hlen) ?_
                    rw [hentered]
                    exact hbody

/-! ### The text printed before -/

/-- More text before everything else. -/
def printing (t : String) : Variation where
  extra := 0
  heap := id
  before := t
  next_heap _ := rfl
  closures_heap _ := rfl
  heap_define _ _ _ _ := rfl
  heap_countClosure _ := rfl
  heap_enter _ _ _ _ := rfl

/-- Text printed before never makes runs part. -/
theorem printing_parting (t : String) : (printing t).Parting fun _ => False where
  limit _ _ _ := .inl rfl
  lookup _ _ _ _ := .inl rfl
  assign _ _ _ := .inl rfl
  made _ _ h := h

end Variation

namespace EvalM

variable {α β : Type}

/-- Whatever was printed before, a run prints behind it and does not depend on it. -/
def Prints (x : EvalM α) : Prop := ∀ t m, (Variation.printing t).Keeps x x m

/-- What a run does is settled by the run before which nothing was printed. -/
theorem Prints.eq {x : EvalM α} (hx : x.Prints) (m : Machine) :
    x m = ((x ⟨m.heap, ""⟩).1,
      ⟨(x ⟨m.heap, ""⟩).2.heap, m.printed ++ (x ⟨m.heap, ""⟩).2.printed⟩) := by
  have hkeeps := hx m.printed ⟨m.heap, ""⟩
  have hm : (Variation.printing m.printed).machine ⟨m.heap, ""⟩ = m := by
    simp [Variation.machine, Variation.printing]
  unfold Variation.Keeps at hkeeps
  rw [hm] at hkeeps
  exact hkeeps

theorem Prints.appends {x : EvalM α} (hx : x.Prints) (m : Machine) :
    ∃ t, (x m).2.printed = m.printed ++ t := by
  rw [hx.eq m]
  exact ⟨_, rfl⟩

theorem Prints.pure (a : α) : (Pure.pure a : EvalM α).Prints := fun _ _ =>
  Variation.keeps_pure a

theorem Prints.bind {x : EvalM α} {k : α → EvalM β} (hx : x.Prints) (hk : ∀ a, (k a).Prints) :
    (x >>= k).Prints :=
  fun t m => (hx t m).bind fun a m' _ _ => hk a t m'

theorem Prints.onHeap (change : Heap → Heap) (a : α) :
    (EvalM.onHeap change >>= fun _ => Pure.pure a).Prints := by
  intro t m
  have hchange : (Variation.printing t).heap (change m.heap) =
      change ((Variation.printing t).heap m.heap) := rfl
  exact Variation.keeps_onHeap hchange a

theorem Prints.mapM {x : Expr → EvalM Expr} (hx : ∀ e, (x e).Prints) (es : List Expr) :
    (es.mapM x).Prints :=
  fun t _ => Variation.keeps_mapM fun _ e _ _ m _ _ _ => hx e t m

variable {evalIn : FrameId → Expr → EvalM Expr}

theorem Prints.apply (heval : ∀ f e, (evalIn f e).Prints) (p : Expr) (args : List Expr) :
    (EvalM.apply evalIn p args).Prints :=
  fun t _ => Variation.keeps_apply fun _ _ body _ _ _ => heval _ body t _

theorem Prints.branch (heval : ∀ f e, (evalIn f e).Prints) (f : FrameId) (b c v : Expr) :
    EvalM.Prints
      (match v with
        | .number x => if x != 0.0 then evalIn f b else evalIn f c
        | v => EvalM.fail (.testNotNumber v)) :=
  fun t m => Variation.keeps_branch fun _ _ => heval f _ t m

end EvalM

/-- What was printed before a run is left in place and makes no difference to it. -/
theorem eval_printed (limit : Nat) (f : FrameId) (e : Expr) : (eval limit f e).Prints := by
  intro t m
  have hagrees := Variation.lockstep (Variation.printing_parting t) ⟨limit, f, e, m⟩ id
  unfold Variation.Agrees at hagrees
  simpa [Variation.call, Variation.printing, Call.run, Variation.Keeps] using hagrees

end FrameLisp
