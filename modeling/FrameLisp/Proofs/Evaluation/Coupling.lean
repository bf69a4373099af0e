/-
FrameLisp/Proofs/Evaluation/Coupling.lean

Two runs side by side, and one run as the special case in which they are the same.

Evaluation touches the heap in five ways: it looks names up, binds them by `define`
and by `set!`, counts closures, and adds the frame of a call.  A `Coupling` is a
relation between two heaps that these five respect.  What is respected by each of
them is respected by every run:

    heaps related, same code  ⟹  same outcome, same text printed, heaps related,

whatever the outcome is, nesting too deep included (`Coupling.eval_alike`).  This is
the only induction over `eval` that statements about the heap need.

Not all code and not all values have to be considered.  A `Discipline` says which
frames code runs in, which code runs there and which values turn up, and it is enough
for the relation to be respected as long as the discipline is kept.  What it allows
may depend on the number of frames there are, as long as more frames never allow
less.

An `Invariant` is a property of one heap that is kept under a discipline, which is a
coupling of the heap with itself (`Invariant.eval_holds`).
-/
import FrameLisp.Proofs.Evaluation.Adequacy
import FrameLisp.Proofs.Evaluation.Primitives
import FrameLisp.Proofs.Heap.Frames

namespace FrameLisp

/-! ### Disciplines -/

/-- The parts of an expression that are evaluated with it, in the same frame. -/
def Expr.operands : Expr → List Expr
  | .list items => items
  | .define _ e => [e]
  | .assign _ e => [e]
  | .cond a b c => [a, b, c]
  | _ => []

/-- Which frames code runs in, which code that is, and which values turn up, while there
are `n` frames. -/
structure Discipline where
  home : (n : Nat) → FrameId → Prop
  code : (n : Nat) → Expr → Prop
  value : (n : Nat) → Expr → Prop
  home_mono {n n' f} : n ≤ n' → home n f → home n' f
  code_mono {n n' e} : n ≤ n' → code n e → code n' e
  value_mono {n n' v} : n ≤ n' → value n v → value n' v
  code_operand {n e d} : code n e → d ∈ e.operands → code n d
  value_atom {n v} : v.isAtom = true → value n v
  value_list {n xs} : value n (.list xs) ↔ ∀ x ∈ xs, value n x
  value_quoted {n content} : code n (.quote content) → value n content
  -- a closure carries the body of a `lambda` to where it is called
  value_closure {n f i params body} :
    home n f → code n (.lambda params body) → value n (.closure i params body f)
  code_body {n i params body captured} :
    value n (.closure i params body captured) → code n body

/-- The discipline that restricts nothing but the frames code runs in. -/
def Discipline.free (home : FrameId → Prop) : Discipline where
  home _ := home
  code _ _ := True
  value _ _ := True
  home_mono _ hf := hf
  code_mono _ _ := trivial
  value_mono _ _ := trivial
  code_operand _ _ := trivial
  value_atom _ := trivial
  value_list := ⟨fun _ _ _ => trivial, fun _ => trivial⟩
  value_quoted _ := trivial
  value_closure _ _ := trivial
  code_body _ := trivial

namespace Discipline

variable {D : Discipline} {n : Nat}

theorem value_call {p : Primitive} {args : List Expr} {v : Expr} {t : String}
    (hargs : ∀ a ∈ args, D.value n a) (hcall : p.call args = .ok (v, t)) : D.value n v :=
  (Primitive.call_built hcall).holds (fun _ => D.value_atom) (fun _ => D.value_list) hargs

end Discipline

/-! ### Couplings -/

/-- A relation between two heaps that is respected by all that code of the discipline
does. -/
structure Coupling extends Discipline where
  rel : Heap → Heap → Prop
  next_eq {h₁ h₂} : rel h₁ h₂ → h₁.next = h₂.next
  closures_eq {h₁ h₂} : rel h₁ h₂ → h₁.closures = h₂.closures
  lookup_eq {h₁ h₂ f name} : rel h₁ h₂ → home h₁.next f → code h₁.next (.symbol name) →
    h₁.lookup f name = h₂.lookup f name
  value_lookup {h₁ h₂ f name v} : rel h₁ h₂ → home h₁.next f → code h₁.next (.symbol name) →
    h₁.lookup f name = .ok v → value h₁.next v
  rel_define {h₁ h₂ f name v} : rel h₁ h₂ → home h₁.next f → value h₁.next v →
    rel (h₁.define f name v) (h₂.define f name v)
  rel_assign {h₁ h₂ f name v} : rel h₁ h₂ → home h₁.next f → value h₁.next v →
    rel (h₁.assign f name v) (h₂.assign f name v)
  rel_countClosure {h₁ h₂} : rel h₁ h₂ → rel h₁.countClosure h₂.countClosure
  rel_enter {h₁ h₂ i params body captured args} :
    rel h₁ h₂ → value h₁.next (.closure i params body captured) →
    (∀ a ∈ args, value h₁.next a) →
    rel (h₁.enter captured params args) (h₂.enter captured params args)
  home_enter {h₁ h₂} : rel h₁ h₂ → home (h₁.next + 1) h₁.next

theorem EvalM.lookup_apply (f : FrameId) (name : String) (m : Machine) :
    EvalM.lookup f name m = ((m.heap.lookup f name).mapError Stop.fault, m) := by
  rw [EvalM.lookup, Run.bind_ok (Run.get_apply m)]
  cases m.heap.lookup f name <;> rfl

/-- A name that the frame itself binds is evaluated to its value there. -/
theorem eval_symbol_of_get? {f : FrameId} {name : String} {v : Expr} {m : Machine}
    (hv : m.heap.get? f name = some v) (limit : Nat) :
    eval (limit + 1) f (.symbol name) m = (.ok v, m) := by
  show EvalM.lookup f name m = _
  rw [EvalM.lookup_apply, Heap.lookup_of_get? hv]
  rfl

namespace Coupling

variable {α β : Type}

/-- Machines with related heaps that have printed the same text. -/
def Related (C : Coupling) (m₁ m₂ : Machine) : Prop :=
  C.rel m₁.heap m₂.heap ∧ m₁.printed = m₂.printed

/-- A run ends alike on two machines and leaves related ones; the value it gives, if any,
is in `Q`. -/
def Alike (C : Coupling) (x : EvalM α) (Q : Nat → α → Prop) (m₁ m₂ : Machine) : Prop :=
  ∃ r m₁' m₂', x m₁ = (r, m₁') ∧ x m₂ = (r, m₂') ∧ C.Related m₁' m₂' ∧
    m₁.heap.next ≤ m₁'.heap.next ∧ ∀ a, r = .ok a → Q m₁'.heap.next a

variable {C : Coupling} {Q : Nat → α → Prop} {R : Nat → β → Prop} {m₁ m₂ : Machine}

/-! ### Steps of a run -/

theorem alike_pure {a : α} (hm : C.Related m₁ m₂) (ha : Q m₁.heap.next a) :
    C.Alike (pure a) Q m₁ m₂ :=
  ⟨.ok a, m₁, m₂, rfl, rfl, hm, Nat.le_refl _, fun _ h => by cases h; exact ha⟩

theorem alike_throw {s : Stop} (hm : C.Related m₁ m₂) : C.Alike (throw s : EvalM α) Q m₁ m₂ :=
  ⟨.error s, m₁, m₂, rfl, rfl, hm, Nat.le_refl _, nofun⟩

/-- After a run that ended alike, whatever comes next has to end alike only on related
machines with at least as many frames. -/
theorem Alike.bind {x : EvalM α} {k : α → EvalM β} (hx : C.Alike x Q m₁ m₂)
    (hk : ∀ a m₁' m₂', C.Related m₁' m₂' → m₁.heap.next ≤ m₁'.heap.next →
      Q m₁'.heap.next a → C.Alike (k a) R m₁' m₂') :
    C.Alike (x >>= k) R m₁ m₂ := by
  obtain ⟨r, m₁', m₂', hx₁, hx₂, hm, hle, hQ⟩ := hx
  cases r with
  | error s =>
      exact ⟨.error s, m₁', m₂', Run.bind_error hx₁, Run.bind_error hx₂, hm, hle, nofun⟩
  | ok a =>
      obtain ⟨r, m₁'', m₂'', hk₁, hk₂, hm', hle', hR⟩ := hk a m₁' m₂' hm hle (hQ a rfl)
      refine ⟨r, m₁'', m₂'', ?_, ?_, hm', Nat.le_trans hle hle', hR⟩
      · rw [Run.bind_ok hx₁, hk₁]
      · rw [Run.bind_ok hx₂, hk₂]

/-- Changing the heap and giving a value. -/
theorem alike_onHeap {change : Heap → Heap} {a : α}
    (hm : C.rel (change m₁.heap) (change m₂.heap)) (hprinted : m₁.printed = m₂.printed)
    (hle : m₁.heap.next ≤ (change m₁.heap).next) (ha : Q (change m₁.heap).next a) :
    C.Alike (EvalM.onHeap change >>= fun _ => pure a) Q m₁ m₂ :=
  ⟨.ok a, _, _, rfl, rfl, ⟨hm, hprinted⟩, hle, fun _ h => by cases h; exact ha⟩

variable {f : FrameId}

theorem alike_lookup {name : String} (hm : C.Related m₁ m₂) (hf : C.home m₁.heap.next f)
    (hname : C.code m₁.heap.next (.symbol name)) :
    C.Alike (EvalM.lookup f name) C.value m₁ m₂ := by
  have heq := C.lookup_eq hm.1 hf hname
  have hvalue := fun v => C.value_lookup (v := v) hm.1 hf hname
  refine ⟨_, m₁, m₂, EvalM.lookup_apply f name m₁, ?_, hm, Nat.le_refl _, fun v hv => ?_⟩
  · rw [EvalM.lookup_apply, heq]
  · cases hl : m₁.heap.lookup f name with
    | error cause =>
        rw [hl] at hv
        cases hv
    | ok w =>
        rw [hl] at hv
        cases hv
        exact hvalue v hl

/-- The closures that the two runs make have the same identity. -/
theorem alike_makeClosure {params : List String} {body : Expr} (hm : C.Related m₁ m₂)
    (hf : C.home m₁.heap.next f) (hlambda : C.code m₁.heap.next (.lambda params body)) :
    C.Alike (EvalM.makeClosure f params body) C.value m₁ m₂ := by
  refine ⟨.ok (.closure m₁.heap.closures params body f),
    { m₁ with heap := m₁.heap.countClosure }, { m₂ with heap := m₂.heap.countClosure },
    rfl, ?_, ⟨C.rel_countClosure hm.1, hm.2⟩, Nat.le_refl _, fun v hv => ?_⟩
  · rw [C.closures_eq hm.1]
    rfl
  · cases hv
    exact C.value_closure hf hlambda

theorem alike_callPrimitive {p : Primitive} {args : List Expr} (hm : C.Related m₁ m₂)
    (hargs : ∀ a ∈ args, C.value m₁.heap.next a) :
    C.Alike (EvalM.callPrimitive p args) C.value m₁ m₂ := by
  unfold EvalM.callPrimitive
  rcases hcall : p.call args with s | ⟨v, t⟩
  · exact alike_throw hm
  · refine ⟨.ok v, _, _, rfl, rfl, ⟨hm.1, ?_⟩, Nat.le_refl _, fun w hw => ?_⟩
    · show m₁.printed ++ t = m₂.printed ++ t
      rw [hm.2]
    · cases hw
      exact C.value_call hargs hcall

/-! ### Whole runs -/

/-- Evaluation as far as a limit ends alike, for code that the discipline allows. -/
def EvaluatesAlike (C : Coupling) (evalIn : FrameId → Expr → EvalM Expr) : Prop :=
  ∀ {f e m₁ m₂}, C.Related m₁ m₂ → C.home m₁.heap.next f → C.code m₁.heap.next e →
    C.Alike (evalIn f e) C.value m₁ m₂

variable {evalIn : FrameId → Expr → EvalM Expr}

theorem alike_apply (heval : C.EvaluatesAlike evalIn) {p : Expr} {args : List Expr}
    (hm : C.Related m₁ m₂) (hp : C.value m₁.heap.next p)
    (hargs : ∀ a ∈ args, C.value m₁.heap.next a) :
    C.Alike (EvalM.apply evalIn p args) C.value m₁ m₂ := by
  cases p with
  | native p => exact alike_callPrimitive hm hargs
  | closure i params body captured =>
      by_cases hlen : args.length = params.length
      · rw [EvalM.apply, if_pos hlen]
        -- both runs add a frame, with the same number
        have hrel : C.rel (m₁.heap.enter captured params args)
            (m₂.heap.enter captured params args) := C.rel_enter hm.1 hp hargs
        have hhome := C.home_enter hm.1
        have hbody := C.code_mono (Nat.le_succ _) (C.code_body hp)
        have hrun : C.Alike (evalIn m₁.heap.next body) C.value
            { m₁ with heap := m₁.heap.enter captured params args }
            { m₂ with heap := m₂.heap.enter captured params args } :=
          heval ⟨hrel, hm.2⟩ (by simpa using hhome) (by simpa using hbody)
        obtain ⟨r, m₁', m₂', hx₁, hx₂, hm', hle, hvalue⟩ := hrun
        refine ⟨r, m₁', m₂', ?_, ?_, hm', Nat.le_of_succ_le (by simpa using hle), hvalue⟩
        · rw [Run.bind_ok (EvalM.enter_apply captured params args m₁), hx₁]
        · rw [Run.bind_ok (EvalM.enter_apply captured params args m₂), ← C.next_eq hm.1, hx₂]
      · rw [EvalM.apply, if_neg hlen]
        exact alike_throw hm
  | _ => exact alike_throw hm

theorem alike_mapM (heval : C.EvaluatesAlike evalIn) (es : List Expr) :
    ∀ {m₁ m₂}, C.Related m₁ m₂ → C.home m₁.heap.next f →
      (∀ e ∈ es, C.code m₁.heap.next e) →
      C.Alike (es.mapM (evalIn f)) (fun n vs => ∀ v ∈ vs, C.value n v) m₁ m₂ := by
  induction es with
  | nil =>
      intro m₁ m₂ hm _ _
      exact alike_pure hm (by simp)
  | cons e es ih =>
      intro m₁ m₂ hm hf hes
      rw [List.mapM_cons]
      refine (heval hm hf (hes e List.mem_cons_self)).bind fun v m₁' m₂' hm' hle hv => ?_
      have hes' : ∀ d ∈ es, C.code m₁'.heap.next d :=
        fun d hd => C.code_mono hle (hes d (List.mem_cons_of_mem _ hd))
      refine (ih hm' (C.home_mono hle hf) hes').bind fun vs m₁'' m₂'' hm'' hle' hvs => ?_
      refine alike_pure hm'' fun w hw => ?_
      rcases List.mem_cons.mp hw with rfl | hw
      · exact C.value_mono hle' hv
      · exact hvs w hw

/-- Evaluating an expression and storing its value. -/
theorem alike_store (heval : C.EvaluatesAlike evalIn) {e : Expr} {change : Expr → Heap → Heap}
    (hm : C.Related m₁ m₂) (hf : C.home m₁.heap.next f) (he : C.code m₁.heap.next e)
    (hchange : ∀ {v h₁ h₂}, C.rel h₁ h₂ → C.home h₁.next f → C.value h₁.next v →
      C.rel (change v h₁) (change v h₂) ∧ (change v h₁).next = h₁.next) :
    C.Alike (evalIn f e >>= fun v => EvalM.onHeap (change v) >>= fun _ => pure Expr.nil)
      C.value m₁ m₂ := by
  refine (heval hm hf he).bind fun v m₁' m₂' hm' hle hv => ?_
  obtain ⟨hrel, hnext⟩ := hchange hm'.1 (C.home_mono hle hf) hv
  exact alike_onHeap hrel hm'.2 (Nat.le_of_eq hnext.symm) (C.value_atom rfl)

theorem alike_cond (heval : C.EvaluatesAlike evalIn) {a b c : Expr} (hm : C.Related m₁ m₂)
    (hf : C.home m₁.heap.next f) (hcode : C.code m₁.heap.next (.cond a b c)) :
    C.Alike
      (evalIn f a >>= fun v =>
        match v with
        | .number x => if x != 0.0 then evalIn f b else evalIn f c
        | v => EvalM.fail (.testNotNumber v))
      C.value m₁ m₂ := by
  have hpart : ∀ d ∈ [a, b, c], C.code m₁.heap.next d := fun d hd => C.code_operand hcode hd
  refine (heval hm hf (hpart a (by simp))).bind fun v m₁' m₂' hm' hle _ => ?_
  cases v with
  | number x =>
      show C.Alike (if x != 0.0 then evalIn f b else evalIn f c) C.value m₁' m₂'
      split
      · exact heval hm' (C.home_mono hle hf) (C.code_mono hle (hpart b (by simp)))
      · exact heval hm' (C.home_mono hle hf) (C.code_mono hle (hpart c (by simp)))
  | _ => exact alike_throw hm'

/-- A special form at the head of a list. -/
theorem alike_form {limit : Nat} (heval : C.EvaluatesAlike (eval limit)) {head : Expr}
    {args : List Expr} (hhead : head.isForm = true) (hm : C.Related m₁ m₂)
    (hf : C.home m₁.heap.next f) (hcode : C.code m₁.heap.next head) :
    C.Alike (eval (limit + 1) f (.list (head :: args))) C.value m₁ m₂ := by
  cases head with
  | nil | number | text | symbol | list | native | closure => cases hhead
  | quote content => exact alike_pure hm (C.value_quoted hcode)
  | lambda params body => exact alike_makeClosure hm hf hcode
  | define name e =>
      exact alike_store heval hm hf (C.code_operand hcode (List.mem_singleton_self e))
        fun hrel hf hv => ⟨C.rel_define hrel hf hv, Heap.next_define⟩
  | assign name e =>
      exact alike_store heval hm hf (C.code_operand hcode (List.mem_singleton_self e))
        fun hrel hf hv => ⟨C.rel_assign hrel hf hv, Heap.next_assign⟩
  | cond a b c => exact alike_cond heval hm hf hcode

/-- **Related heaps stay related.**  Code of the discipline ends alike on them, whatever
the limit and the outcome are. -/
theorem eval_alike (C : Coupling) (limit : Nat) : C.EvaluatesAlike (eval limit) := by
  induction limit with
  | zero =>
      intro f e m₁ m₂ hm _ _
      exact alike_throw hm
  | succ limit ih =>
      intro f e m₁ m₂ hm hf he
      cases e with
      | nil | number | text => exact alike_pure hm (C.value_atom rfl)
      | symbol name => exact alike_lookup hm hf he
      | quote content => exact alike_pure hm (C.value_quoted he)
      | define | assign | lambda | cond | native | closure =>
          rw [eval_inert rfl]
          exact alike_throw hm
      | list items =>
          cases items with
          | nil => exact alike_throw hm
          | cons head args =>
              have hcode : ∀ d ∈ head :: args, C.code m₁.heap.next d :=
                fun d hd => C.code_operand he hd
              by_cases hhead : head.isForm = true
              · exact alike_form ih hhead hm hf (hcode head List.mem_cons_self)
              · rw [eval_apply (by simpa using hhead)]
                refine (ih hm hf (hcode head List.mem_cons_self)).bind
                  fun p m₁' m₂' hm' hle hp => ?_
                have hargs : ∀ d ∈ args, C.code m₁'.heap.next d :=
                  fun d hd => C.code_mono hle (hcode d (List.mem_cons_of_mem _ hd))
                refine (alike_mapM ih args hm' (C.home_mono hle hf) hargs).bind
                  fun vs m₁'' m₂'' hm'' hle' hvs => ?_
                exact alike_apply ih hm'' (C.value_mono hle' hp) hvs

end Coupling

/-! ### Invariants -/

/-- A property of heaps that is kept by all that code of the discipline does. -/
structure Invariant extends Discipline where
  holds : Heap → Prop
  value_bound {h g frame name v} : holds h → h.frame? g = some frame →
    (name, v) ∈ frame.bindings → value h.next v
  holds_define {h f name v} : holds h → home h.next f → value h.next v →
    holds (h.define f name v)
  holds_assign {h f name v} : holds h → home h.next f → value h.next v →
    holds (h.assign f name v)
  holds_countClosure {h} : holds h → holds h.countClosure
  holds_enter {h i params body captured args} :
    holds h → value h.next (.closure i params body captured) →
    (∀ a ∈ args, value h.next a) → holds (h.enter captured params args)
  home_enter {h} : holds h → home (h.next + 1) h.next

namespace Invariant

theorem value_of_lookup (I : Invariant) {h : Heap} {f : FrameId} {name : String} {v : Expr}
    (hh : I.holds h) (hv : h.lookup f name = .ok v) : I.value h.next v := by
  obtain rfl | ⟨g, -, frame, hframe, hmem⟩ := Heap.lookup_cases hv
  · exact I.value_atom rfl
  · exact I.value_bound hh hframe hmem

/-- An invariant couples a heap with itself. -/
def coupling (I : Invariant) : Coupling where
  toDiscipline := I.toDiscipline
  rel h₁ h₂ := h₁ = h₂ ∧ I.holds h₁
  next_eq h := by rw [h.1]
  closures_eq h := by rw [h.1]
  lookup_eq h _ _ := by rw [h.1]
  value_lookup h _ _ hv := I.value_of_lookup h.2 hv
  rel_define h hf hv := ⟨by rw [h.1], I.holds_define h.2 hf hv⟩
  rel_assign h hf hv := ⟨by rw [h.1], I.holds_assign h.2 hf hv⟩
  rel_countClosure h := ⟨by rw [h.1], I.holds_countClosure h.2⟩
  rel_enter h hp hargs := ⟨by rw [h.1], I.holds_enter h.2 hp hargs⟩
  home_enter h := I.home_enter h.2

variable {I : Invariant} {m : Machine}

theorem holds_defineAll {h : Heap} {f : FrameId} {pairs : List (String × Expr)} (hh : I.holds h)
    (hf : I.home h.next f) (hpairs : ∀ p ∈ pairs, I.value h.next p.2) :
    I.holds (h.defineAll f pairs) := by
  induction pairs generalizing h with
  | nil => exact hh
  | cons p rest ih =>
      have hp : I.value h.next p.2 := hpairs p List.mem_cons_self
      refine ih (I.holds_define hh hf hp) ?_ fun q hq => ?_
      · rwa [Heap.next_define]
      · rw [Heap.next_define]
        exact hpairs q (List.mem_cons_of_mem _ hq)

theorem holds_of_alike {α : Type} {x : EvalM α} {Q : Nat → α → Prop}
    (hx : I.coupling.Alike x Q m m) :
    I.holds (x m).2.heap ∧ m.heap.next ≤ (x m).2.heap.next ∧
      ∀ a, (x m).1 = .ok a → Q (x m).2.heap.next a := by
  obtain ⟨r, m', _, heq, _, hm, hle, hQ⟩ := hx
  rw [heq]
  exact ⟨hm.1.2, hle, hQ⟩

/-- **An invariant holds after every run**, whatever its outcome is. -/
theorem eval_holds (hm : I.holds m.heap) (limit : Nat) {f : FrameId} {e : Expr}
    (hf : I.home m.heap.next f) (he : I.code m.heap.next e) :
    I.holds (eval limit f e m).2.heap ∧ m.heap.next ≤ (eval limit f e m).2.heap.next ∧
      ∀ v, (eval limit f e m).1 = .ok v → I.value (eval limit f e m).2.heap.next v :=
  holds_of_alike (I.coupling.eval_alike limit ⟨⟨rfl, hm⟩, rfl⟩ hf he)

theorem apply_holds (hm : I.holds m.heap) (limit : Nat) {p : Expr} {args : List Expr}
    (hp : I.value m.heap.next p) (hargs : ∀ a ∈ args, I.value m.heap.next a) :
    I.holds (EvalM.apply (eval limit) p args m).2.heap :=
  (holds_of_alike
    (Coupling.alike_apply (I.coupling.eval_alike limit) ⟨⟨rfl, hm⟩, rfl⟩ hp hargs)).1

end Invariant

end FrameLisp
