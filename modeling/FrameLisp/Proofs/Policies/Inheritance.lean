/-
FrameLisp/Proofs/Policies/Inheritance.lean

Policies are handed on from frame to frame.

A session starts with one frame, which has the policies it was asked for.  Every other
frame is the frame of a call and takes its policies from the frame that the closure has
captured.  Captured frames exist, so by induction all frames of a session have the
policies it started with.

What an unbound name comes to is up to the policy of the frame it is looked up from.  Since
that is everywhere the same, it is up to the session: either no request ever reports a name
as unbound, or a symbol is reported exactly if no frame on the chain binds it
(`policies_throughout`).
-/
import FrameLisp.Proofs.Evaluation.Stops
import FrameLisp.Proofs.Heap.WellFormed

namespace FrameLisp

namespace Heap

variable {h : Heap} {f : FrameId} {name : String} {v : Expr} {p : Policies}

/-! ### Unbound names -/

/-- Some frame on the chain of `f` binds the name. -/
def Sees (h : Heap) (f : FrameId) (name : String) : Prop :=
  ∃ g ∈ h.chain f, h.binds g name = true

theorem find?_eq_none_iff : h.find? f name = none ↔ ¬h.Sees f name := by
  simp [find?, Sees]

/-- A name is a fault exactly if no frame on the chain binds it and the policy of the frame
it is looked up from says so. -/
theorem lookup_eq_error_iff {cause : Fault} :
    h.lookup f name = .error cause ↔
      ¬h.Sees f name ∧ (h.policies f).unbound = .fails ∧ cause = .unbound name := by
  have hsees : h.find? f name = none ↔ ¬h.Sees f name := find?_eq_none_iff
  unfold lookup
  cases hfind : h.find? f name with
  | none =>
      simp only [hfind, true_iff] at hsees
      cases hunbound : (h.policies f).unbound <;> simp [hsees, eq_comm]
  | some g =>
      -- the frame that was found binds the name, so there is a value
      have hbinds : (h.get? g name).isSome = true := by
        rw [get?_isSome]
        exact (mem_chain_of_find? hfind).2
      obtain ⟨v, hv⟩ := Option.isSome_iff_exists.mp hbinds
      have hseen : h.Sees f name := by
        simpa [hfind] using hsees
      simp [hv, hseen]

/-! ### Heaps with the same policies everywhere -/

/-- All frames have the policies `p`. -/
def Uniform (h : Heap) (p : Policies) : Prop :=
  ∀ ⦃g frame⦄, h.frame? g = some frame → frame.policies = p

theorem Uniform.policies (hu : h.Uniform p) (hf : f < h.next) : h.policies f = p := by
  obtain ⟨frame, hframe⟩ := exists_frame?_of_lt hf
  rw [Heap.policies, hframe]
  exact hu hframe

theorem Uniform.empty (p : Policies) : Uniform {} p := by
  intro g frame hframe
  cases hframe

theorem Uniform.define (hu : h.Uniform p) : (h.define f name v).Uniform p := by
  intro g frame hframe
  obtain ⟨rfl, old, hold, rfl⟩ | ⟨-, hframe⟩ := frame?_define_cases hframe
  · show old.policies = p
    exact hu hold
  · exact hu hframe

theorem Uniform.push (hu : h.Uniform p) {frame : Frame} (hframe : frame.policies = p) :
    (h.push frame).Uniform p := by
  intro g frame' hframe'
  obtain ⟨rfl, rfl⟩ | hframe' := frame?_push_cases hframe'
  · exact hframe
  · exact hu hframe'

end Heap

/-- In a well-formed heap, evaluation hands on policies. -/
def Invariant.uniform (p : Policies) : Invariant where
  toDiscipline := .existing
  holds h := h.WellFormed ∧ h.Uniform p
  value_bound hh hframe hmem _ hg := hh.1.captured_lt hframe hmem hg
  holds_define hh _ hv := ⟨hh.1.define hv, hh.2.define⟩
  holds_assign hh _ hv := ⟨hh.1.define hv, hh.2.define⟩
  holds_countClosure hh := ⟨⟨hh.1.outer_lt, hh.1.nodup_names, hh.1.captured_lt⟩, hh.2⟩
  holds_enter hh hp hargs :=
    ⟨hh.1.enter (hp _ .closure) hargs, hh.2.push (hh.2.policies (hp _ .closure))⟩
  home_enter _ := Nat.lt_succ_self _

namespace Invariant

variable {p : Policies}

/-- A session starts with the policies that it was asked for. -/
theorem start_uniform (p : Policies) (limit : Nat) :
    (Invariant.uniform p).Ready (Session.start p limit) := by
  have hwf : (Heap.newFrame {} none p).WellFormed :=
    Heap.WellFormed.empty.push nofun (by simp [Bindings.names]) nofun
  have hframe : (Heap.newFrame {} none p).Uniform p := (Heap.Uniform.empty p).push rfl
  apply start_ready
  · exact ⟨hwf, hframe⟩
  · exact Nat.lt_succ_self 0
  · intro q hq g hg
    exact absurd hg (not_captures_standardBindings q hq)

theorem afterAll_uniform (p : Policies) (limit : Nat) (rs : List Request) :
    (Invariant.uniform p).Ready ((Session.start p limit).afterAll rs) :=
  afterAll_ready (fun hderives _ hg => absurd hg hderives.not_captures) (start_uniform p limit) rs

/-- Where unbound names give nothing, no call reports one. -/
theorem not_unbound_of_admits {c : Call} {s : Stop} (hp : p.unbound = .givesNil)
    (hc : (Invariant.uniform p).Admits c) (hstop : c.run.1 = .error s) : s.isUnbound = false := by
  refine Bool.eq_false_iff.mpr fun hs => ?_
  obtain ⟨d, name, hleads, -, hlookup⟩ := Call.exists_unbound_origin (Prod.ext hstop rfl) hs
  have hd : (Invariant.uniform p).Admits d := admits_of_leads hleads hc
  -- the frame in which the symbol was looked up has the policies of all frames
  have hpolicies : d.machine.heap.policies d.frame = p := hd.holds.2.policies hd.home
  cases hfault : d.machine.heap.lookup d.frame name with
  | ok v =>
      rw [hfault] at hlookup
      cases hlookup
  | error cause =>
      obtain ⟨-, hfails, -⟩ := Heap.lookup_eq_error_iff.mp hfault
      rw [hpolicies, hp] at hfails
      cases hfails

end Invariant

/-! ### Sessions -/

theorem ReadStop.isUnbound_toStop (stop : ReadStop) : stop.toStop.isUnbound = false := by
  cases stop <;> rfl

/-- Looking a symbol up reports it as unbound exactly if it is not seen and the policy says
so. -/
theorem eval_symbol_unbound_iff (limit : Nat) (f : FrameId) (name : String) (m : Machine) :
    (∃ stop, (eval (limit + 1) f (.symbol name) m).1 = .error stop ∧ stop.isUnbound = true) ↔
      ¬m.heap.Sees f name ∧ (m.heap.policies f).unbound = .fails := by
  have hrun : (eval (limit + 1) f (.symbol name) m).1 =
      (m.heap.lookup f name).mapError Stop.fault := by
    show (EvalM.lookup f name m).1 = _
    rw [EvalM.lookup_apply]
  rw [hrun]
  constructor
  · rintro ⟨stop, hstop, -⟩
    cases hlookup : m.heap.lookup f name with
    | ok v =>
        rw [hlookup] at hstop
        cases hstop
    | error cause =>
        obtain ⟨hsees, hfails, -⟩ := Heap.lookup_eq_error_iff.mp hlookup
        exact ⟨hsees, hfails⟩
  · rintro ⟨hsees, hfails⟩
    have hlookup : m.heap.lookup f name = .error (.unbound name) :=
      Heap.lookup_eq_error_iff.mpr ⟨hsees, hfails, rfl⟩
    exact ⟨.fault (.unbound name), by rw [hlookup]; rfl, rfl⟩

/-- **Policies reach every frame.**  In a session that started with the policies `p`, whatever
was asked of it and whatever became of that, all frames have the policies `p`, and no frame
ever made is missing later.  So if unbound names give nothing, then no request, and no
evaluation of code that can be read, in whatever frame, reports a name as unbound; and if
they are faults, then evaluating a symbol, in whatever frame, reports it exactly if no frame
on the chain binds it. -/
theorem policies_throughout (p : Policies) (limit : Nat) (rs : List Request) :
    let s := (Session.start p limit).afterAll rs
    (∀ g frame, s.heap.frame? g = some frame → frame.policies = p) ∧
    (∀ later, s.heap.Extends (s.afterAll later).heap) ∧
    (p.unbound = .givesNil →
      (∀ r reply stop, s.reply? r = some reply → reply.outcome = .error stop →
        stop.isUnbound = false) ∧
      ∀ nesting f tokens e printed stop, f < s.heap.next → Derives tokens e →
        (eval nesting f e ⟨s.heap, printed⟩).1 = .error stop → stop.isUnbound = false) ∧
    (p.unbound = .fails →
      ∀ nesting f name printed, f < s.heap.next →
        ((∃ stop, (eval (nesting + 1) f (.symbol name) ⟨s.heap, printed⟩).1 = .error stop ∧
            stop.isUnbound = true) ↔
          ∀ g ∈ s.heap.chain f, s.heap.binds g name = false)) := by
  intro s
  have hs : (Invariant.uniform p).Ready s := Invariant.afterAll_uniform p limit rs
  have ⟨⟨hwf, huniform⟩, hglobal⟩ := hs
  have hcode : ∀ {n tokens e}, Derives tokens e → (Invariant.uniform p).code n e :=
    fun hderives _ hg => absurd hg hderives.not_captures
  refine ⟨fun g frame hframe => huniform hframe, fun later => ?_, fun hnil => ⟨?_, ?_⟩, ?_⟩
  · exact (Session.afterAll_wellFormed hwf hglobal later).1.2
  · intro r reply stop hreply hstop
    obtain ⟨cause, rfl⟩ | ⟨c, hc, hrun⟩ := Invariant.reply_stop hcode hs hreply hstop
    · exact cause.isUnbound_toStop
    · exact Invariant.not_unbound_of_admits hnil hc hrun
  · intro nesting f tokens e printed stop hf hderives hstop
    have hc : (Invariant.uniform p).Admits ⟨nesting, f, e, ⟨s.heap, printed⟩⟩ :=
      ⟨⟨hwf, huniform⟩, hf, hcode hderives⟩
    exact Invariant.not_unbound_of_admits hnil hc hstop
  · intro hfails nesting f name printed hf
    rw [eval_symbol_unbound_iff]
    simp [Heap.Sees, huniform.policies hf, hfails]

end FrameLisp
