/-
FrameLisp/Proofs/Evaluation/Adequacy.lean

Evaluation and the rules are the same thing seen from two sides.

Whatever `eval` answers, short of nesting too deep, the rules derive; and what the
rules derive, `eval` answers with every limit from some limit on.  Hence a program
has at most one meaning, and it has none exactly if every limit is too low for it.

The forward direction follows the definition of `eval` step by step: `Follows x R`
says that whatever a run `x` does short of nesting too deep is allowed by `R`, and
there is one lemma for each way in which runs are put together.  The backward
direction is by induction on derivations; a limit that is high enough for all parts
of a derivation, and one more, is high enough for the whole.
-/
import FrameLisp.Proofs.Run
import FrameLisp.Proofs.Evaluation.Rules

namespace FrameLisp

/-! ### Steps on the machine -/

theorem Heap.newest_enter (h : Heap) (captured : FrameId) (params : List String)
    (args : List Expr) : (h.enter captured params args).newest = h.next := by
  simp [Heap.newest, Heap.next, Heap.enter, Heap.push]

namespace EvalM

theorem onHeap_apply (change : Heap → Heap) (m : Machine) :
    onHeap change m = (.ok ⟨⟩, { m with heap := change m.heap }) := rfl

theorem enter_apply (captured : FrameId) (params : List String) (args : List Expr)
    (m : Machine) :
    enter captured params args m =
      (.ok m.heap.next, { m with heap := m.heap.enter captured params args }) := by
  rw [← Heap.newest_enter]
  rfl

end EvalM

/-! ### Runs that follow a relation -/

/-- A relation between heaps, outcomes and printed texts, as the rules describe it. -/
abbrev Effect (α : Type) := Heap → Outcome α → Heap → String → Prop

/-- Whatever `x` does short of nesting too deep is allowed by `R`. -/
def Follows {α : Type} (x : EvalM α) (R : Effect α) : Prop :=
  ∀ m r m', x m = (r, m') → r ≠ .error .tooDeep →
    ∃ o t, r = Outcome.toResult o ∧ R m.heap o m'.heap t ∧ m'.printed = m.printed ++ t

/-- `R`, and then `S` with the value that `R` gave; `S` is skipped after a halt. -/
def Effect.andThen {α β : Type} (R : Effect α) (S : α → Effect β) : Effect β :=
  fun h o h' t =>
    (∃ a h₁ t₁ t₂, R h (.ok a) h₁ t₁ ∧ S a h₁ o h' t₂ ∧ t = t₁ ++ t₂) ∨
      ∃ halt, R h (.error halt) h' t ∧ o = .error halt

/-- Give `a`, change the heap by `change` and print nothing. -/
def Effect.gives {α : Type} (a : α) (change : Heap → Heap) : Effect α :=
  fun h o h' t => o = .ok a ∧ h' = change h ∧ t = ""

/-- What a conditional does after its test gave `v`. -/
def Effect.branch (f : FrameId) (v b c : Expr) : Effect Expr :=
  fun h o h' t =>
    (∃ x, v = .number x ∧ (x == 0.0) = false ∧ Evaluates h f b o h' t) ∨
    (∃ x, v = .number x ∧ (x == 0.0) = true ∧ Evaluates h f c o h' t) ∨
    ((∀ x, v ≠ .number x) ∧ o = .error (.fault (.testNotNumber v)) ∧ h' = h ∧ t = "")

namespace Follows

variable {α β : Type}

theorem mono {x : EvalM α} {R S : Effect α} (hx : Follows x R)
    (hRS : ∀ {h o h' t}, R h o h' t → S h o h' t) : Follows x S := by
  intro m r m' hr hdeep
  obtain ⟨o, t, ho, hR, ht⟩ := hx m r m' hr hdeep
  exact ⟨o, t, ho, hRS hR, ht⟩

theorem pure {R : Effect α} {a : α} (hR : ∀ {h}, R h (.ok a) h "") : Follows (Pure.pure a) R := by
  intro m r m' hr _
  cases hr
  exact ⟨.ok a, "", rfl, hR, by simp⟩

theorem fail {R : Effect α} {cause : Fault} (hR : ∀ {h}, R h (.error (.fault cause)) h "") :
    Follows (EvalM.fail cause) R := by
  intro m r m' hr _
  cases hr
  exact ⟨.error (.fault cause), "", rfl, hR, by simp⟩

theorem bind {x : EvalM α} {k : α → EvalM β} {R : Effect α} {S : α → Effect β}
    (hx : Follows x R) (hk : ∀ a, Follows (k a) (S a)) :
    Follows (x >>= k) (R.andThen S) := by
  intro m r m' hr hdeep
  obtain ⟨a, m₁, hx₁, hk₁⟩ | ⟨s, hx₁, rfl⟩ := Run.bind_cases hr
  -- a stop of the first run is a stop of both, so it is not for nesting too deep
  · obtain ⟨o₁, t₁, ho₁, hR, ht₁⟩ := hx m _ _ hx₁ (by simp)
    obtain ⟨o, t₂, ho, hS, ht₂⟩ := hk a m₁ r m' hk₁ hdeep
    cases o₁ with
    | error halt => cases ho₁
    | ok b =>
        cases ho₁
        refine ⟨o, t₁ ++ t₂, ho, .inl ⟨a, m₁.heap, t₁, t₂, hR, hS, rfl⟩, ?_⟩
        rw [ht₂, ht₁, String.append_assoc]
  · obtain ⟨o₁, t₁, ho₁, hR, ht₁⟩ := hx m _ _ hx₁ (by simpa using hdeep)
    cases o₁ with
    | ok b => cases ho₁
    | error halt =>
        cases ho₁
        exact ⟨.error halt, t₁, rfl, .inr ⟨halt, hR, rfl⟩, ht₁⟩

theorem onHeap (change : Heap → Heap) (a : α) :
    Follows (EvalM.onHeap change >>= fun _ => Pure.pure a) (Effect.gives a change) := by
  intro m r m' hr _
  rw [Run.bind_ok (EvalM.onHeap_apply change m)] at hr
  cases hr
  exact ⟨.ok a, "", rfl, ⟨rfl, rfl, rfl⟩, by simp⟩

/-- A run whose value is then stored. -/
theorem bind_onHeap {x : EvalM α} {R : Effect α} {S : Effect Expr} {change : α → Heap → Heap}
    (hx : Follows x R)
    (hok : ∀ {h a h' t}, R h (.ok a) h' t → S h (.ok .nil) (change a h') t)
    (hhalt : ∀ {h halt h' t}, R h (.error halt) h' t → S h (.error halt) h' t) :
    Follows (x >>= fun a => EvalM.onHeap (change a) >>= fun _ => Pure.pure Expr.nil) S := by
  refine (hx.bind fun a => onHeap (change a) Expr.nil).mono ?_
  rintro h o h' t (⟨a, h₁, t₁, t₂, hR, ⟨rfl, rfl, rfl⟩, rfl⟩ | ⟨halt, hR, rfl⟩)
  · rw [String.append_empty]
    exact hok hR
  · exact hhalt hR

theorem lookup (f : FrameId) (name : String) :
    Follows (EvalM.lookup f name) fun h => Evaluates h f (.symbol name) := by
  intro m r m' hr _
  unfold EvalM.lookup at hr
  rw [Run.bind_ok (Run.get_apply m)] at hr
  cases hl : m.heap.lookup f name with
  | ok v =>
      rw [hl] at hr
      cases hr
      exact ⟨.ok v, "", rfl, .symbol hl, by simp⟩
  | error cause =>
      rw [hl] at hr
      cases hr
      exact ⟨.error (.fault cause), "", rfl, .unbound hl, by simp⟩

theorem makeClosure (f : FrameId) (params : List String) (body : Expr) (rest : List Expr) :
    Follows (EvalM.makeClosure f params body)
      fun h => Evaluates h f (.list (.lambda params body :: rest)) := by
  intro m r m' hr _
  cases hr
  exact ⟨.ok _, "", rfl, .lambda, by simp⟩

theorem callPrimitive (p : Primitive) (args : List Expr) :
    Follows (EvalM.callPrimitive p args) fun h => Applies h (.native p) args := by
  intro m r m' hr hdeep
  unfold EvalM.callPrimitive at hr
  rcases hp : p.call args with s | ⟨v, t⟩
  · rw [hp] at hr
    cases hr
    cases s with
    | fault cause => exact ⟨.error (.fault cause), "", rfl, .nativeHalts hp, by simp⟩
    | exit status => exact ⟨.error (.exit status), "", rfl, .nativeHalts hp, by simp⟩
    | tooDeep => exact absurd rfl hdeep
  · rw [hp] at hr
    cases hr
    exact ⟨.ok v, t, rfl, .native hp, rfl⟩

/-- Entering the frame of a call gives its number. -/
theorem enter {captured : FrameId} {params : List String} {args : List Expr}
    {k : FrameId → EvalM α} {R : FrameId → Effect α} {S : Effect α}
    (hk : ∀ g, Follows (k g) (R g))
    (hRS : ∀ {h o h' t}, R h.next (h.enter captured params args) o h' t → S h o h' t) :
    Follows (EvalM.enter captured params args >>= k) S := by
  intro m r m' hr hdeep
  rw [Run.bind_ok (EvalM.enter_apply captured params args m)] at hr
  obtain ⟨o, t, ho, hR, ht⟩ := hk _ _ r m' hr hdeep
  exact ⟨o, t, ho, hRS hR, ht⟩

theorem apply {evalBody : FrameId → Expr → EvalM Expr}
    (hbody : ∀ g e, Follows (evalBody g e) fun h => Evaluates h g e) (p : Expr)
    (args : List Expr) :
    Follows (EvalM.apply evalBody p args) fun h => Applies h p args := by
  cases p with
  | native p => exact callPrimitive p args
  | closure i params body captured =>
      by_cases hlen : args.length = params.length
      · rw [EvalM.apply, if_pos hlen]
        exact enter (fun g => hbody g body) fun hb => Applies.closure hlen hb
      · rw [EvalM.apply, if_neg hlen]
        exact fail (.arity hlen)
  | _ => exact fail (.notProcedure rfl)

theorem branch {f : FrameId} {b c : Expr} {x y : EvalM Expr}
    (hx : Follows x fun h => Evaluates h f b) (hy : Follows y fun h => Evaluates h f c)
    (v : Expr) :
    Follows
      (match v with
        | .number z => if z != 0.0 then x else y
        | v => EvalM.fail (.testNotNumber v))
      (Effect.branch f v b c) := by
  cases v with
  | number z =>
      by_cases hz : (z == 0.0) = true
      · simp only [bne, hz, Bool.not_true, Bool.false_eq_true, if_false]
        exact hy.mono fun hc => .inr (.inl ⟨z, rfl, hz, hc⟩)
      · have hz' : (z == 0.0) = false := by simpa using hz
        simp only [bne, hz', Bool.not_false, if_true]
        exact hx.mono fun hb => .inl ⟨z, rfl, hz', hb⟩
  | _ => exact fail (.inr (.inr ⟨nofun, rfl, rfl, rfl⟩))

theorem mapM {f : FrameId} {x : Expr → EvalM Expr}
    (hx : ∀ e, Follows (x e) fun h => Evaluates h f e) (es : List Expr) :
    Follows (es.mapM x) fun h => EvaluatesAll h f es := by
  induction es with
  | nil => exact pure .nil
  | cons e es ih =>
      rw [List.mapM_cons]
      refine ((hx e).bind fun v => ih.bind fun vs =>
        Follows.pure (R := .gives (v :: vs) id) ⟨rfl, rfl, rfl⟩).mono ?_
      rintro h o h' t (⟨v, h₁, t₁, t₂, he, hrest, rfl⟩ | ⟨halt, he, rfl⟩)
      · obtain ⟨vs, h₂, t₂, t₃, hes, ⟨rfl, rfl, rfl⟩, rfl⟩ | ⟨halt, hes, rfl⟩ := hrest
        · rw [String.append_empty]
          exact .cons he hes
        · exact .restHalts he hes
      · exact .firstHalts he

end Follows

theorem eval_apply {head : Expr} (hhead : head.isForm = false) (limit : Nat) (f : FrameId)
    (args : List Expr) :
    eval (limit + 1) f (.list (head :: args)) =
      eval limit f head >>= fun procedure => args.mapM (eval limit f) >>= fun values =>
        EvalM.apply (eval limit) procedure values := by
  cases head <;> first | rfl | cases hhead

theorem eval_inert {e : Expr} (he : e.isInert = true) (limit : Nat) (f : FrameId) :
    eval (limit + 1) f e = EvalM.fail (.notEvaluable e) := by
  cases e <;> first | rfl | cases he

/-- Special forms at the head of a list follow the rules if their parts do. -/
theorem eval_form_follows {limit : Nat} {f : FrameId}
    (ih : ∀ f e, Follows (eval limit f e) fun h => Evaluates h f e) (head : Expr)
    (args : List Expr) (hhead : head.isForm = true) :
    Follows (eval (limit + 1) f (.list (head :: args)))
      fun h => Evaluates h f (.list (head :: args)) := by
  cases head with
  | nil | number | text | symbol | list | native | closure => cases hhead
  | quote content => exact .pure .quote
  | lambda params body => exact .makeClosure f params body args
  | define name e => exact (ih f e).bind_onHeap .define .defineHalts
  | assign name e => exact (ih f e).bind_onHeap .assign .assignHalts
  | cond a b c =>
      refine ((ih f a).bind fun v => .branch (ih f b) (ih f c) v).mono ?_
      rintro h o h' t (⟨v, h₁, t₁, t₂, ha, hbranch, rfl⟩ | ⟨halt, ha, rfl⟩)
      · obtain ⟨x, rfl, hx, hb⟩ | ⟨x, rfl, hx, hc⟩ | ⟨hv, rfl, rfl, rfl⟩ := hbranch
        · exact .condTrue ha hx hb
        · exact .condFalse ha hx hc
        · rw [String.append_empty]
          exact .condOther ha hv
      · exact .condHalts ha

theorem eval_follows (limit : Nat) (f : FrameId) (e : Expr) :
    Follows (eval limit f e) fun h => Evaluates h f e := by
  induction limit generalizing f e with
  | zero =>
      intro m r m' hr hdeep
      cases hr
      exact absurd rfl hdeep
  | succ limit ih =>
      cases e with
      | nil => exact .pure .nil
      | number x => exact .pure .number
      | text s => exact .pure .text
      | symbol name => exact .lookup f name
      | quote content => exact .pure .quoteAlone
      | define | assign | lambda | cond | native | closure =>
          rw [eval_inert rfl]
          exact .fail (.inert rfl)
      | list items =>
          cases items with
          | nil => exact .fail .emptyForm
          | cons head args =>
              -- a call is three runs in a row, each of which may halt
              by_cases hhead : head.isForm = false
              · rw [eval_apply hhead]
                refine ((ih f head).bind fun p => (Follows.mapM (ih f) args).bind fun vs =>
                  Follows.apply ih p vs).mono ?_
                rintro h o h' t (⟨p, h₁, t₁, t₂, hp, hrest, rfl⟩ | ⟨halt, hp, rfl⟩)
                · obtain ⟨vs, h₂, t₂, t₃, hvs, ha, rfl⟩ | ⟨halt, hvs, rfl⟩ := hrest
                  · exact .apply hhead hp hvs ha
                  · exact .argsHalt hhead hp hvs
                · exact .headHalts hhead hp
              · exact eval_form_follows ih head args (by simpa using hhead)

/-! ### Limits that are high enough -/

/-- Whatever was printed before, the run `x` ends with `o`, leaves `h'` and prints
`t`. -/
def Ends {α : Type} (x : EvalM α) (h : Heap) (o : Outcome α) (h' : Heap) (t : String) : Prop :=
  ∀ p, x ⟨h, p⟩ = (o.toResult, ⟨h', p ++ t⟩)

namespace Ends

variable {α β : Type} {h h' h₁ h₂ : Heap} {t t₁ t₂ : String}

theorem pure (a : α) : Ends (Pure.pure a) h (.ok a) h "" := by
  intro p
  rw [Run.pure_apply, String.append_empty]
  rfl

theorem fail (cause : Fault) :
    Ends (EvalM.fail cause : EvalM α) h (.error (.fault cause)) h "" := by
  intro p
  rw [EvalM.fail, Run.throw_apply, String.append_empty]
  rfl

theorem bind {x : EvalM α} {k : α → EvalM β} {a : α} {o : Outcome β}
    (hx : Ends x h (.ok a) h₁ t₁) (hk : Ends (k a) h₁ o h₂ t₂) :
    Ends (x >>= k) h o h₂ (t₁ ++ t₂) := by
  intro p
  rw [Run.bind_ok (hx p), hk, String.append_assoc]

/-- A run followed by one that prints nothing. -/
theorem bind_silent {x : EvalM α} {k : α → EvalM β} {a : α} {o : Outcome β}
    (hx : Ends x h (.ok a) h₁ t) (hk : Ends (k a) h₁ o h₂ "") :
    Ends (x >>= k) h o h₂ t := by
  have hxk := hx.bind hk
  rwa [String.append_empty] at hxk

theorem bind_halt {x : EvalM α} {k : α → EvalM β} {halt : Halt}
    (hx : Ends x h (.error halt) h' t) : Ends (x >>= k) h (.error halt) h' t := by
  intro p
  rw [Run.bind_error (hx p)]
  rfl

theorem onHeap (change : Heap → Heap) (a : α) :
    Ends (EvalM.onHeap change >>= fun _ => Pure.pure a) h (.ok a) (change h) "" := by
  intro p
  rw [Run.bind_ok (EvalM.onHeap_apply change _), Run.pure_apply, String.append_empty]
  rfl

theorem lookup {f : FrameId} {name : String} {v : Expr} (hv : h.lookup f name = .ok v) :
    Ends (EvalM.lookup f name) h (.ok v) h "" := by
  intro p
  rw [EvalM.lookup, Run.bind_ok (Run.get_apply _), hv]
  exact pure v p

theorem lookup_fails {f : FrameId} {name : String} {cause : Fault}
    (hv : h.lookup f name = .error cause) :
    Ends (EvalM.lookup f name) h (.error (.fault cause)) h "" := by
  intro p
  rw [EvalM.lookup, Run.bind_ok (Run.get_apply _), hv]
  exact fail cause p

theorem makeClosure (f : FrameId) (params : List String) (body : Expr) :
    Ends (EvalM.makeClosure f params body) h (.ok (.closure h.closures params body f))
      h.countClosure "" := by
  intro p
  rw [EvalM.makeClosure, Run.bind_ok (Run.get_apply _)]
  exact onHeap Heap.countClosure _ p

end Ends

/-- What holds of the successors of all high enough limits holds of all high enough
limits. -/
theorem exists_limit_of_succ {P : Nat → Prop} (d : Nat) (hP : ∀ l, d ≤ l → P (l + 1)) :
    ∃ d, ∀ limit, d ≤ limit → P limit := by
  refine ⟨d + 1, fun limit hlimit => ?_⟩
  obtain ⟨l, rfl⟩ : ∃ l, limit = l + 1 := ⟨limit - 1, by omega⟩
  exact hP l (by omega)

mutual

/-- Every derivation is found with limits that are high enough. -/
theorem Evaluates.ends {h h' : Heap} {f : FrameId} {e : Expr} {o : Outcome Expr}
    {t : String} :
    Evaluates h f e o h' t → ∃ d, ∀ limit, d ≤ limit → Ends (eval limit f e) h o h' t
  | .nil => exists_limit_of_succ 0 fun _ _ => .pure Expr.nil
  | .number => exists_limit_of_succ 0 fun _ _ => .pure _
  | .text => exists_limit_of_succ 0 fun _ _ => .pure _
  | .quoteAlone => exists_limit_of_succ 0 fun _ _ => .pure _
  | .quote => exists_limit_of_succ 0 fun _ _ => .pure _
  | .symbol hv => exists_limit_of_succ 0 fun _ _ => .lookup hv
  | .unbound hv => exists_limit_of_succ 0 fun _ _ => .lookup_fails hv
  | .lambda => exists_limit_of_succ 0 fun _ _ => .makeClosure _ _ _
  | .define he => by
      obtain ⟨d, hd⟩ := he.ends
      exact exists_limit_of_succ d fun l hl => (hd l hl).bind_silent (.onHeap _ Expr.nil)
  | .defineHalts he => by
      obtain ⟨d, hd⟩ := he.ends
      exact exists_limit_of_succ d fun l hl => (hd l hl).bind_halt
  | .assign he => by
      obtain ⟨d, hd⟩ := he.ends
      exact exists_limit_of_succ d fun l hl => (hd l hl).bind_silent (.onHeap _ Expr.nil)
  | .assignHalts he => by
      obtain ⟨d, hd⟩ := he.ends
      exact exists_limit_of_succ d fun l hl => (hd l hl).bind_halt
  | .condTrue ha hx hb => by
      obtain ⟨d₁, h₁⟩ := ha.ends
      obtain ⟨d₂, h₂⟩ := hb.ends
      -- the sum of the limits for the parts is high enough for each of them
      refine exists_limit_of_succ (d₁ + d₂) fun l hl => (h₁ l (by omega)).bind ?_
      simp only [bne, hx, Bool.not_false, if_true]
      exact h₂ l (by omega)
  | .condFalse ha hx hc => by
      obtain ⟨d₁, h₁⟩ := ha.ends
      obtain ⟨d₂, h₂⟩ := hc.ends
      refine exists_limit_of_succ (d₁ + d₂) fun l hl => (h₁ l (by omega)).bind ?_
      simp only [bne, hx, Bool.not_true, Bool.false_eq_true, if_false]
      exact h₂ l (by omega)
  | @Evaluates.condOther _ _ _ _ _ _ v _ _ ha hv => by
      obtain ⟨d, hd⟩ := ha.ends
      refine exists_limit_of_succ d fun l hl => (hd l hl).bind_silent ?_
      cases v with
      | number x => exact absurd rfl (hv x)
      | _ => exact .fail _
  | .condHalts ha => by
      obtain ⟨d, hd⟩ := ha.ends
      exact exists_limit_of_succ d fun l hl => (hd l hl).bind_halt
  | .apply hhead hp hvs ha => by
      obtain ⟨d₁, h₁⟩ := hp.ends
      obtain ⟨d₂, h₂⟩ := hvs.ends
      obtain ⟨d₃, h₃⟩ := ha.ends
      refine exists_limit_of_succ (d₁ + d₂ + d₃) fun l hl => ?_
      rw [eval_apply hhead]
      exact (h₁ l (by omega)).bind ((h₂ l (by omega)).bind (h₃ l (by omega)))
  | .headHalts hhead hp => by
      obtain ⟨d, hd⟩ := hp.ends
      refine exists_limit_of_succ d fun l hl => ?_
      rw [eval_apply hhead]
      exact (hd l hl).bind_halt
  | .argsHalt hhead hp hvs => by
      obtain ⟨d₁, h₁⟩ := hp.ends
      obtain ⟨d₂, h₂⟩ := hvs.ends
      refine exists_limit_of_succ (d₁ + d₂) fun l hl => ?_
      rw [eval_apply hhead]
      exact (h₁ l (by omega)).bind (h₂ l (by omega)).bind_halt
  | .emptyForm => exists_limit_of_succ 0 fun _ _ => .fail _
  | .inert he => by
      refine exists_limit_of_succ 0 fun l _ => ?_
      rw [eval_inert he]
      exact .fail _

theorem EvaluatesAll.ends {h h' : Heap} {f : FrameId} {es : List Expr}
    {o : Outcome (List Expr)} {t : String} :
    EvaluatesAll h f es o h' t →
      ∃ d, ∀ limit, d ≤ limit → Ends (es.mapM (eval limit f)) h o h' t
  | .nil => ⟨0, fun _ _ => .pure _⟩
  | .cons he hes => by
      obtain ⟨d₁, h₁⟩ := he.ends
      obtain ⟨d₂, h₂⟩ := hes.ends
      refine ⟨d₁ + d₂, fun limit hl => ?_⟩
      rw [List.mapM_cons]
      exact (h₁ limit (by omega)).bind ((h₂ limit (by omega)).bind_silent (.pure _))
  | .firstHalts he => by
      obtain ⟨d, hd⟩ := he.ends
      refine ⟨d, fun limit hl => ?_⟩
      rw [List.mapM_cons]
      exact (hd limit hl).bind_halt
  | .restHalts he hes => by
      obtain ⟨d₁, h₁⟩ := he.ends
      obtain ⟨d₂, h₂⟩ := hes.ends
      refine ⟨d₁ + d₂, fun limit hl => ?_⟩
      rw [List.mapM_cons]
      exact (h₁ limit (by omega)).bind (h₂ limit (by omega)).bind_halt

theorem Applies.ends {h h' : Heap} {p : Expr} {args : List Expr} {o : Outcome Expr}
    {t : String} :
    Applies h p args o h' t →
      ∃ d, ∀ limit, d ≤ limit → Ends (EvalM.apply (eval limit) p args) h o h' t
  | .native hcall => by
      refine ⟨0, fun limit _ p => ?_⟩
      simp only [EvalM.apply, EvalM.callPrimitive, hcall]
      rfl
  | .nativeHalts hcall => by
      refine ⟨0, fun limit _ p => ?_⟩
      simp only [EvalM.apply, EvalM.callPrimitive, hcall, String.append_empty]
      rfl
  | .closure hlen hb => by
      obtain ⟨d, hd⟩ := hb.ends
      refine ⟨d, fun limit hlimit p => ?_⟩
      simp only [EvalM.apply, if_pos hlen]
      rw [Run.bind_ok (EvalM.enter_apply ..)]
      exact hd limit hlimit p
  | .arity hlen => by
      refine ⟨0, fun limit _ => ?_⟩
      simp only [EvalM.apply, if_neg hlen]
      exact .fail _
  | @Applies.notProcedure _ v _ hv => by
      refine ⟨0, fun limit _ => ?_⟩
      cases v with
      | native | closure => cases hv
      | _ => exact .fail _

end

/-! ### Adequacy -/

/-- A program has at most one meaning. -/
theorem Evaluates.unique {h h₁ h₂ : Heap} {f : FrameId} {e : Expr} {o₁ o₂ : Outcome Expr}
    {t₁ t₂ : String} (he₁ : Evaluates h f e o₁ h₁ t₁) (he₂ : Evaluates h f e o₂ h₂ t₂) :
    o₁ = o₂ ∧ h₁ = h₂ ∧ t₁ = t₂ := by
  obtain ⟨d₁, hd₁⟩ := he₁.ends
  obtain ⟨d₂, hd₂⟩ := he₂.ends
  have heq := (hd₁ (d₁ + d₂) (by omega) "").symm.trans (hd₂ (d₁ + d₂) (by omega) "")
  have hm := congrArg Prod.snd heq
  simp only [String.empty_append, Machine.mk.injEq] at hm
  exact ⟨Outcome.toResult_injective (congrArg Prod.fst heq), hm⟩

/-- **Evaluation is sound and complete for the rules.**  What it answers, short of
nesting too deep, the rules derive; what they derive it answers with every limit that
is high enough; they derive at most one outcome, heap and printed text; and it nests
too deep with every limit exactly if they derive none. -/
theorem eval_iff_evaluates (f : FrameId) (e : Expr) (m : Machine) :
    (∀ limit r m', eval limit f e m = (r, m') → r ≠ .error .tooDeep →
      ∃ o t, r = Outcome.toResult o ∧ Evaluates m.heap f e o m'.heap t ∧
        m'.printed = m.printed ++ t) ∧
    (∀ o h' t, Evaluates m.heap f e o h' t →
      ∃ d, ∀ limit, d ≤ limit →
        eval limit f e m = (Outcome.toResult o, ⟨h', m.printed ++ t⟩)) ∧
    (∀ o₁ h₁ t₁ o₂ h₂ t₂, Evaluates m.heap f e o₁ h₁ t₁ → Evaluates m.heap f e o₂ h₂ t₂ →
      o₁ = o₂ ∧ h₁ = h₂ ∧ t₁ = t₂) ∧
    ((∀ limit, (eval limit f e m).1 = .error .tooDeep) ↔
      ¬∃ o h' t, Evaluates m.heap f e o h' t) := by
  refine ⟨fun limit => eval_follows limit f e m, fun o h' t he => ?_,
    fun _ _ _ _ _ _ he₁ he₂ => he₁.unique he₂, fun hdeep => ?_, fun hnone limit => ?_⟩
  · obtain ⟨d, hd⟩ := he.ends
    exact ⟨d, fun limit hlimit => hd limit hlimit m.printed⟩
  · rintro ⟨o, h', t, he⟩
    obtain ⟨d, hd⟩ := he.ends
    have hresult := hdeep d
    rw [hd d (Nat.le_refl d) m.printed] at hresult
    exact Outcome.toResult_ne_tooDeep o hresult
  · refine Classical.byContradiction fun hr => ?_
    obtain ⟨o, t, -, he, -⟩ := eval_follows limit f e m _ _ rfl hr
    exact hnone ⟨o, _, t, he⟩

end FrameLisp
