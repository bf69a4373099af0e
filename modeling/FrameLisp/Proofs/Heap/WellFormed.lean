/-
FrameLisp/Proofs/Heap/WellFormed.lean

The heap is well formed at all times.

In a well-formed heap links lead to older frames, no frame binds a name twice, and
closures captured frames that exist.  So walking outward from a frame ends, after the
frames of its chain, at a frame with no link; looking names up, finding where to write
and finding the root are all such walks.

The heap is changed from outside by the operations on frames and from inside by
evaluation.  Each change keeps the heap well formed and every frame's link and
policies as they were.  Two ways of using the library follow: any sequence of
operations on frames, starting from nothing, and any session.
-/
import FrameLisp.Proofs.Expr.Captures
import FrameLisp.Proofs.Session.Requests

namespace FrameLisp

namespace Heap

/-- Links lead to older frames, names are distinct, and closures captured frames that
exist. -/
structure WellFormed (h : Heap) : Prop where
  outer_lt {f frame o} : h.frame? f = some frame → frame.outer = some o → o < f
  nodup_names {f frame} : h.frame? f = some frame → frame.bindings.names.Nodup
  captured_lt {f frame name v g} : h.frame? f = some frame → (name, v) ∈ frame.bindings →
    v.Captures g → g < h.next

/-- `h.Walk f l`: going from `f` along the links passes the frames `l` and ends. -/
inductive Walk (h : Heap) : FrameId → List FrameId → Prop
  | root {f frame} : h.frame? f = some frame → frame.outer = none → Walk h f [f]
  | outer {f frame o l} :
      h.frame? f = some frame → frame.outer = some o → Walk h o l → Walk h f (f :: l)

variable {h h' : Heap} {f g : FrameId} {name : String} {v : Expr}

/-! ### Walks end -/

theorem WellFormed.walk (hwf : h.WellFormed) (hf : f < h.next) : h.Walk f (h.chain f) := by
  induction f using Nat.strongRecOn with
  | _ f ih =>
      obtain ⟨frame, hframe⟩ := exists_frame?_of_lt hf
      rw [chain, hframe]
      dsimp only
      cases ho : frame.outer with
      | none => exact .root hframe ho
      | some o =>
          have hlt : o < f := hwf.outer_lt hframe ho
          dsimp only
          rw [if_pos hlt]
          exact .outer hframe ho (ih o hlt (Nat.lt_trans hlt hf))

theorem Walk.exists_getLast? {l : List FrameId} (hw : h.Walk f l) :
    ∃ r, l.getLast? = some r := by
  cases hw with
  | root => exact ⟨f, rfl⟩
  | outer => exact ⟨_, List.getLast?_cons⟩

/-! ### Changes keep a heap well formed -/

namespace WellFormed

theorem empty : WellFormed {} := by
  constructor
  all_goals
    intros
    contradiction

theorem define (hwf : h.WellFormed) (hv : ∀ g, v.Captures g → g < h.next) :
    (h.define f name v).WellFormed := by
  constructor
  · intro k frame o hframe ho
    obtain ⟨rfl, old, hold, rfl⟩ | ⟨-, hframe⟩ := frame?_define_cases hframe
    · exact hwf.outer_lt hold ho
    · exact hwf.outer_lt hframe ho
  · intro k frame hframe
    obtain ⟨rfl, old, hold, rfl⟩ | ⟨-, hframe⟩ := frame?_define_cases hframe
    · exact Bindings.nodup_names_insert (hwf.nodup_names hold) name v
    · exact hwf.nodup_names hframe
  · intro k frame n w g hframe hmem hg
    rw [next_define]
    obtain ⟨rfl, old, hold, rfl⟩ | ⟨-, hframe⟩ := frame?_define_cases hframe
    · obtain hmem | heq := Bindings.mem_insert hmem
      · exact hwf.captured_lt hold hmem hg
      · cases heq
        exact hv g hg
    · exact hwf.captured_lt hframe hmem hg

theorem push (hwf : h.WellFormed) {frame : Frame} (houter : ∀ o, frame.outer = some o → o < h.next)
    (hnames : frame.bindings.names.Nodup)
    (hbound : ∀ p ∈ frame.bindings, ∀ g, p.2.Captures g → g < h.next) :
    (h.push frame).WellFormed := by
  constructor
  · intro k frame' o hframe ho
    obtain ⟨rfl, rfl⟩ | hframe := frame?_push_cases hframe
    · exact houter o ho
    · exact hwf.outer_lt hframe ho
  · intro k frame' hframe
    obtain ⟨rfl, rfl⟩ | hframe := frame?_push_cases hframe
    · exact hnames
    · exact hwf.nodup_names hframe
  · intro k frame' n w g hframe hmem hg
    rw [next_push]
    obtain ⟨rfl, rfl⟩ | hframe := frame?_push_cases hframe
    · exact Nat.lt_succ_of_lt (hbound _ hmem g hg)
    · exact Nat.lt_succ_of_lt (hwf.captured_lt hframe hmem hg)

theorem enter (hwf : h.WellFormed) {captured : FrameId} {params : List String}
    {args : List Expr} (hcaptured : captured < h.next)
    (hargs : ∀ a ∈ args, ∀ g, a.Captures g → g < h.next) :
    (h.enter captured params args).WellFormed := by
  apply hwf.push
  · intro o ho
    cases ho
    exact hcaptured
  · exact Bindings.nodup_names_insertAll (by simp [Bindings.names]) _
  · intro p hp
    exact hargs p.2 (Bindings.mem_args_of_mem_insertAll hp)

end WellFormed

/-- `h'` is well formed, walks in it end, and it has the frames of `h` with the links,
policies and roots they had. -/
structure Continues (h h' : Heap) : Prop where
  wellFormed : h'.WellFormed
  walk {f : FrameId} : f < h'.next → h'.Walk f (h'.chain f)
  extend : h.Extends h'
  root {f : FrameId} : f < h.next → ∃ r, h.root? f = some r ∧ h'.root? f = some r

theorem WellFormed.continues (hwf : h.WellFormed) (hwf' : h'.WellFormed)
    (hext : h.Extends h') : h.Continues h' where
  wellFormed := hwf'
  walk := hwf'.walk
  extend := hext
  root {f} hf := by
    obtain ⟨r, hr⟩ := (hwf.walk hf).exists_getLast?
    exact ⟨r, hr, by rw [hext.root?_eq hf]; exact hr⟩

end Heap

/-! ### Evaluation -/

/-- Evaluation keeps heaps well formed, and what was there since `h₀`. -/
def Invariant.wellFormed (h₀ : Heap) : Invariant where
  toDiscipline := .existing
  holds h := h.WellFormed ∧ h₀.Extends h
  value_bound hh hframe hmem _ hg := hh.1.captured_lt hframe hmem hg
  holds_define hh _ hv := ⟨hh.1.define hv, hh.2.define _ _ _⟩
  holds_assign hh _ hv := ⟨hh.1.define hv, hh.2.define _ _ _⟩
  holds_countClosure hh := ⟨⟨hh.1.outer_lt, hh.1.nodup_names, hh.1.captured_lt⟩, hh.2⟩
  holds_enter hh hp hargs := ⟨hh.1.enter (hp _ .closure) hargs, hh.2.push _⟩
  home_enter _ := Nat.lt_succ_self _

/-! ### Operations on frames -/

/-- What can be done to frames from outside. -/
inductive Operation where
  | newFrame (vars : Variables) (outer : Option FrameId) (unbound setScope : Option String)
  | define (f : FrameId) (name : String) (value : Expr)
  | assign (f : FrameId) (name : String) (value : Expr)
  | update (f : FrameId) (pairs : List (String × Expr))
  | register (f : FrameId)
  | evaluate (limit : Nat) (f : FrameId) (source : String)

namespace Operation

/-- The frames an operation is about exist, and so do those that its values refer to. -/
def Allowed (h : Heap) : Operation → Prop
  | .newFrame _ outer _ _ => ∀ o, outer = some o → o < h.next
  | .define f _ v => f < h.next ∧ ∀ g, v.Captures g → g < h.next
  | .assign f _ v => f < h.next ∧ ∀ g, v.Captures g → g < h.next
  | .update f pairs => f < h.next ∧ ∀ p ∈ pairs, ∀ g, p.2.Captures g → g < h.next
  | .register f => f < h.next
  | .evaluate _ f _ => f < h.next

/-- Carry out an operation; the value is that of an evaluation that gives one.  An
operation that fails leaves what it did until then, which is nothing unless it is an
evaluation. -/
def perform (h : Heap) : Operation → Heap × Option Expr
  | .newFrame vars outer unbound setScope =>
      match Policies.resolve vars (outer.map h.policies) unbound setScope with
      | .ok p => (h.newFrame outer p, none)
      | .error _ => (h, none)
  | .define f name v => (h.define f name v, none)
  | .assign f name v => (h.assign f name v, none)
  | .update f pairs => (h.defineAll f pairs, none)
  | .register f => (h.defineAll f standardBindings, none)
  | .evaluate limit f source =>
      match readOne limit source with
      | .ok e =>
          let r := eval limit f e { heap := h }
          (r.2.heap, r.1.toOption)
      | .error _ => (h, none)

/-- Every operation keeps a heap well formed and gives a value that refers to existing
frames only. -/
theorem perform_wellFormed {h : Heap} {op : Operation} (hwf : h.WellFormed)
    (hop : op.Allowed h) :
    (op.perform h).1.WellFormed ∧ h.Extends (op.perform h).1 ∧
      ∀ v, (op.perform h).2 = some v → ∀ g, v.Captures g → g < (op.perform h).1.next := by
  have hnone : ∀ {n} v, (none : Option Expr) = some v → ∀ g, v.Captures g → g < n := by
    intro n v hv
    cases hv
  cases op with
  | newFrame vars outer unbound setScope =>
      unfold perform
      dsimp only
      split
      · refine ⟨hwf.push hop ?_ (by simp), (Heap.Extends.refl h).push _, hnone⟩
        simp [Bindings.names]
      · exact ⟨hwf, .refl h, hnone⟩
  | define f name v =>
      exact ⟨hwf.define hop.2, (Heap.Extends.refl h).define f name v, hnone⟩
  | assign f name v =>
      exact ⟨hwf.define hop.2, (Heap.Extends.refl h).define _ name v, hnone⟩
  | update f pairs =>
      obtain ⟨hwf', hext⟩ := (Invariant.wellFormed h).holds_defineAll ⟨hwf, .refl h⟩ hop.1 hop.2
      exact ⟨hwf', hext, hnone⟩
  | register f =>
      obtain ⟨hwf', hext⟩ := (Invariant.wellFormed h).holds_defineAll ⟨hwf, .refl h⟩ hop
        fun p hp g hg => absurd hg (not_captures_standardBindings p hp)
      exact ⟨hwf', hext, hnone⟩
  | evaluate limit f source =>
      unfold perform
      dsimp only
      split
      · next e hread =>
          obtain ⟨⟨hwf', hext⟩, -, hvalue⟩ := (Invariant.wellFormed h).eval_holds
            (m := { heap := h }) ⟨hwf, .refl h⟩ limit (e := e) hop
            fun g hg => absurd hg (not_captures_of_readOne hread)
          refine ⟨hwf', hext, fun v hv => hvalue v ?_⟩
          cases hr : (eval limit f e { heap := h }).1 with
          | error stop =>
              rw [hr] at hv
              cases hv
          | ok w =>
              rw [hr] at hv
              cases hv
              rfl
      · exact ⟨hwf, .refl h, hnone⟩

end Operation

/-- The heaps that operations on frames lead to. -/
inductive Heap.Reaches (h : Heap) : Heap → Prop
  | refl : Reaches h h
  | step {h' op} : Reaches h h' → Operation.Allowed h' op → Reaches h (op.perform h').1

theorem Heap.Reaches.wellFormed {h h' : Heap} (hwf : h.WellFormed) (hr : h.Reaches h') :
    h'.WellFormed ∧ h.Extends h' := by
  induction hr with
  | refl => exact ⟨hwf, .refl h⟩
  | step _ hop ih =>
      obtain ⟨hwf', hext', -⟩ := Operation.perform_wellFormed ih.1 hop
      exact ⟨hwf', ih.2.trans hext'⟩

/-! ### Sessions -/

namespace Session

theorem start_wellFormed (p : Policies) (limit : Nat) :
    (start p limit).heap.WellFormed ∧ 0 < (start p limit).heap.next := by
  have hframe : (Heap.newFrame {} none p).WellFormed :=
    Heap.WellFormed.empty.push nofun (by simp [Bindings.names]) nofun
  obtain ⟨⟨hwf, -⟩, hglobal⟩ := Invariant.start_ready (I := .wellFormed (Heap.newFrame {} none p))
    ⟨hframe, .refl _⟩ (Nat.lt_succ_self 0)
    (fun q hq g hg => absurd hg (not_captures_standardBindings q hq)) limit
  exact ⟨hwf, hglobal⟩

theorem reply_wellFormed {s : Session} (hwf : s.heap.WellFormed) (hglobal : 0 < s.heap.next)
    {r : Request} {reply : Reply} (hreply : s.reply? r = some reply) :
    (Invariant.wellFormed s.heap).Keeps reply :=
  Invariant.reply_keeps (I := .wellFormed s.heap)
    (fun hderives _ hg => absurd hg hderives.not_captures) ⟨⟨hwf, .refl s.heap⟩, hglobal⟩ hreply

theorem afterAll_wellFormed {s : Session} (hwf : s.heap.WellFormed) (hglobal : 0 < s.heap.next)
    (rs : List Request) : (Invariant.wellFormed s.heap).Ready (s.afterAll rs) :=
  Invariant.afterAll_ready (I := .wellFormed s.heap)
    (fun hderives _ hg => absurd hg hderives.not_captures) ⟨⟨hwf, .refl s.heap⟩, hglobal⟩ rs

end Session

/-- **The heap is well formed at all times**, and its frames keep their links, policies
and roots: under any sequence of operations on frames, from the empty heap on, and in
any session, whatever became of the operations and requests so far.  A value that is
given refers to frames that exist. -/
theorem wellFormed_throughout :
    (∀ h h', Heap.Reaches {} h → h.Reaches h' →
      h.Continues h' ∧
      ∀ op, Operation.Allowed h' op → ∀ v, (op.perform h').2 = some v →
        ∀ g, v.Captures g → g < (op.perform h').1.next) ∧
    ∀ p limit earlier later,
      let s := (Session.start p limit).afterAll earlier
      let s' := s.afterAll later
      s.heap.Continues s'.heap ∧
      ∀ r reply v, s'.reply? r = some reply → reply.outcome = .ok v →
        ∀ g, v.Captures g → g < reply.session.heap.next := by
  constructor
  · intro h h' hr hr'
    obtain ⟨hwf, -⟩ := hr.wellFormed .empty
    obtain ⟨hwf', hext⟩ := hr'.wellFormed hwf
    exact ⟨hwf.continues hwf' hext, fun op hop => (Operation.perform_wellFormed hwf' hop).2.2⟩
  · intro p limit earlier later s s'
    obtain ⟨hstart, hpos⟩ := Session.start_wellFormed p limit
    obtain ⟨⟨hwf, -⟩, hglobal⟩ := Session.afterAll_wellFormed hstart hpos earlier
    obtain ⟨⟨hwf', hext⟩, hglobal'⟩ := Session.afterAll_wellFormed hwf hglobal later
    refine ⟨hwf.continues hwf' hext, fun r reply v hreply hv => ?_⟩
    exact (Session.reply_wellFormed hwf' hglobal' hreply).2 v hv

end FrameLisp
