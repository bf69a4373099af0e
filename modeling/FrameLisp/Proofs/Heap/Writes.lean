/-
FrameLisp/Proofs/Heap/Writes.lean

Which frames evaluation writes to.

Code that runs in the frame `f` runs, besides in `f`, only in frames made since: a
call opens a new one.  `define` writes to the frame it runs in, and so does `set!`
unless another frame binds the name already and the policy says so.  Hence, of the
frames there were before,

* only `f` can get new names, and they come behind the old ones;
* only `f` and frames that are exposed can get new values, where a frame is exposed
  if it is on the chain of a frame in which `set!` writes to the nearest binding;
* none loses a name, its link or its policies.

`WrittenFrom` states this of the heap before and of the heap at any later time.  It is
an invariant of evaluation, so it holds at the end of every run, whichever way the run
ends.  If no frame has the policy of the nearest binding, then no frame is exposed, and
all frames but `f` stay exactly as they were (`eval_confined`).
-/
import FrameLisp.Proofs.Evaluation.Coupling

namespace FrameLisp

namespace Heap

/-- What can have become of `h₀` while code was running in the frame `f` of it and in
frames made since. -/
structure WrittenFrom (h₀ : Heap) (f : FrameId) (h : Heap) : Prop where
  extend : h₀.Extends h
  /-- Frames made since expose no older frame that was not exposed. -/
  exposed {g} : g < h₀.next → h.Exposed g → h₀.Exposed g
  names {g old frame} : h₀.frame? g = some old → h.frame? g = some frame →
    old.bindings.names <+: frame.bindings.names
  names_other {g old frame} : g ≠ f → h₀.frame? g = some old → h.frame? g = some frame →
    frame.bindings.names = old.bindings.names
  frame_other {g old} : g ≠ f → h₀.frame? g = some old →
    h.frame? g = some old ∨ h₀.Exposed g

namespace WrittenFrom

variable {f g k : FrameId} {h₀ h h' : Heap} {name : String} {v : Expr}

theorem refl (h : Heap) (f : FrameId) : h.WrittenFrom f h where
  extend := .refl h
  exposed _ hg := hg
  names hold hframe := by
    rw [hold] at hframe
    cases hframe
    exact List.prefix_refl _
  names_other _ hold hframe := by
    rw [hold] at hframe
    cases hframe
    rfl
  frame_other _ hold := .inl hold

/-- Where frames, links and policies are the same, the same frames are exposed. -/
theorem exposed_of_extends (hext : h.Extends h') (hnext : h'.next = h.next)
    (hg : h'.Exposed g) : h.Exposed g := by
  obtain ⟨c, frame', hframe', hscope, hmem⟩ := hg
  have hc : c < h.next := hnext ▸ lt_next_of_frame? hframe'
  obtain ⟨frame, hframe⟩ := exists_frame?_of_lt hc
  obtain ⟨frame'', hframe'', -, hpolicies⟩ := hext hframe
  rw [hframe'] at hframe''
  cases hframe''
  exact ⟨c, frame, hframe, by rw [← hpolicies, hscope], by rwa [hext.chain_eq hc] at hmem⟩

/-- A frame may be written to if it is `f` or new, or if it is exposed and binds the name
already. -/
theorem write (hw : h₀.WrittenFrom f h)
    (hk : k = f ∨ h₀.next ≤ k ∨ (h.Exposed k ∧ h.binds k name = true)) :
    h₀.WrittenFrom f (h.define k name v) where
  extend := hw.extend.define k name v
  exposed hg hexp := hw.exposed hg (exposed_of_extends ((Extends.refl h).define k name v)
    next_define hexp)
  names {g old frame} hold hframe := by
    obtain ⟨rfl, before, hbefore, rfl⟩ | ⟨-, hframe⟩ := frame?_define_cases hframe
    · exact (hw.names hold hbefore).trans (Bindings.prefix_names_insert _ _ _)
    · exact hw.names hold hframe
  names_other {g old frame} hgf hold hframe := by
    obtain ⟨rfl, before, hbefore, rfl⟩ | ⟨-, hframe⟩ := frame?_define_cases hframe
    · obtain rfl | hnew | ⟨-, hbinds⟩ := hk
      · exact absurd rfl hgf
      · exact absurd (lt_next_of_frame? hold) (Nat.not_lt.mpr hnew)
      · rw [names_define_of_binds hbinds hbefore]
        exact hw.names_other hgf hold hbefore
    · exact hw.names_other hgf hold hframe
  frame_other {g old} hgf hold := by
    by_cases hgk : g = k
    · subst hgk
      obtain rfl | hnew | ⟨hexp, -⟩ := hk
      · exact absurd rfl hgf
      · exact absurd (lt_next_of_frame? hold) (Nat.not_lt.mpr hnew)
      · exact .inr (hw.exposed (lt_next_of_frame? hold) hexp)
    · rw [frame?_define_of_ne hgk]
      exact hw.frame_other hgf hold

/-- `set!` writes only where it may. -/
theorem assign (hw : h₀.WrittenFrom f h) (hk : k = f ∨ h₀.next ≤ k) :
    h₀.WrittenFrom f (h.assign k name v) := by
  refine hw.write ?_
  obtain htarget | hexp := h.target_cases k name
  · rw [htarget]
    exact hk.imp_right .inl
  · exact .inr (.inr hexp)

/-- A new frame exposes what the frame around it exposes: it has the same policies. -/
theorem exposed_of_enter {captured : FrameId} {params : List String} {args : List Expr}
    (hg : g < h.next) (hexp : (h.enter captured params args).Exposed g) : h.Exposed g := by
  have hext : h.Extends (h.enter captured params args) := (Extends.refl h).push _
  obtain ⟨c, frame, hframe, hscope, hmem⟩ := hexp
  obtain ⟨rfl, rfl⟩ | hframe := frame?_push_cases hframe
  · -- the new frame has the policy of the nearest binding from a frame there was
    have hscope : (h.policies captured).setScope = .nearest := hscope
    unfold policies at hscope
    cases hcaptured : h.frame? captured with
    | none =>
        rw [hcaptured] at hscope
        cases hscope
    | some frame =>
        rw [hcaptured] at hscope
        have hlt : captured < h.next := lt_next_of_frame? hcaptured
        refine ⟨captured, frame, hcaptured, hscope, ?_⟩
        rw [chain, enter, frame?_push, if_pos rfl] at hmem
        simp only [if_pos hlt] at hmem
        obtain rfl | hmem := List.mem_cons.mp hmem
        · exact absurd hg (Nat.lt_irrefl _)
        · rwa [← hext.chain_eq hlt]
  · exact ⟨c, frame, hframe, hscope, by rwa [hext.chain_eq (lt_next_of_frame? hframe)] at hmem⟩

theorem countClosure (hw : h₀.WrittenFrom f h) : h₀.WrittenFrom f h.countClosure where
  extend := hw.extend.countClosure
  exposed hg hexp := hw.exposed hg (exposed_of_extends (Extends.refl h).countClosure rfl hexp)
  names := hw.names
  names_other := hw.names_other
  frame_other := hw.frame_other

theorem enter (hw : h₀.WrittenFrom f h) {captured : FrameId} {params : List String}
    {args : List Expr} : h₀.WrittenFrom f (h.enter captured params args) := by
  have hsame : ∀ {g old}, h₀.frame? g = some old →
      (h.enter captured params args).frame? g = h.frame? g := fun hold =>
    frame?_push_of_lt (Nat.lt_of_lt_of_le (lt_next_of_frame? hold) hw.extend.next_le)
  constructor
  · exact hw.extend.push _
  · intro g hg hexp
    exact hw.exposed hg (exposed_of_enter (Nat.lt_of_lt_of_le hg hw.extend.next_le) hexp)
  · intro g old frame hold hframe
    exact hw.names hold (hsame hold ▸ hframe)
  · intro g old frame hgf hold hframe
    exact hw.names_other hgf hold (hsame hold ▸ hframe)
  · intro g old hgf hold
    rw [hsame hold]
    exact hw.frame_other hgf hold

/-! ### Names seen from a frame -/

theorem binds (hw : h₀.WrittenFrom f h) (hg : h₀.binds g name = true) :
    h.binds g name = true := by
  obtain ⟨old, hold, hname⟩ := binds_eq_true_iff.mp hg
  obtain ⟨frame, hframe, -⟩ := hw.extend hold
  exact binds_eq_true_iff.mpr ⟨frame, hframe, (hw.names hold hframe).subset hname⟩

/-- Frames other than `f` bind the names they did. -/
theorem binds_other (hw : h₀.WrittenFrom f h) (hgf : g ≠ f) (hg : g < h₀.next) :
    h.binds g name = h₀.binds g name := by
  obtain ⟨old, hold⟩ := exists_frame?_of_lt hg
  obtain ⟨frame, hframe, -⟩ := hw.extend hold
  rw [Bool.eq_iff_iff, binds_eq_true_iff, binds_eq_true_iff, hold, hframe]
  simp [hw.names_other hgf hold hframe]

/-- A name that was found is found in the same frame, or in `f` if that is nearer. -/
theorem find?_cases (hw : h₀.WrittenFrom f h) (hk : h₀.find? g name = some k) :
    h.find? g name = some k ∨
      (h.find? g name = some f ∧ ∃ near far, h₀.chain g = near ++ f :: far ∧ k ∈ far) := by
  obtain ⟨hbinds, near, far, hchain, hnear⟩ := List.find?_eq_some_iff_append.mp hk
  have hg : g < h₀.next := by
    refine Nat.lt_of_not_le fun hle => ?_
    rw [chain, frame?_eq_none hle] at hchain
    simp at hchain
  have hold : ∀ c ∈ near, c < h₀.next := fun c hc =>
    chain_subset h₀.closedOutward_lt hg c (by rw [hchain]; simp [hc])
  rw [find?, hw.extend.chain_eq hg, hchain]
  by_cases hf : f ∈ near ∧ h.binds f name = true
  · -- `f` has come to bind the name, and nothing nearer than it has
    obtain ⟨near₁, near₂, rfl, hfirst⟩ := List.eq_append_cons_of_mem hf.1
    refine .inr ⟨?_, near₁, near₂ ++ k :: far, by simp, by simp⟩
    refine List.find?_eq_some_iff_append.mpr ⟨hf.2, near₁, near₂ ++ k :: far, by simp, ?_⟩
    intro c hc
    have hmem : c ∈ near₁ ++ f :: near₂ := List.mem_append_left _ hc
    rw [hw.binds_other (fun heq => hfirst (heq ▸ hc)) (hold c hmem)]
    exact hnear c hmem
  · refine .inl (List.find?_eq_some_iff_append.mpr ⟨hw.binds hbinds, near, far, rfl, ?_⟩)
    intro c hc
    by_cases hcf : c = f
    · subst hcf
      simpa [hc] using hf
    · rw [hw.binds_other hcf (hold c hc)]
      exact hnear c hc

end WrittenFrom

end Heap

/-! ### Runs write where they may -/

/-- Running in `f` and in frames made since keeps `WrittenFrom`. -/
def Invariant.writtenFrom (h₀ : Heap) (f : FrameId) : Invariant where
  toDiscipline := .free fun k => k = f ∨ h₀.next ≤ k
  holds h := h₀.WrittenFrom f h
  value_bound _ _ _ := trivial
  holds_define hw hk _ := hw.write (hk.imp_right .inl)
  holds_assign hw hk _ := hw.assign hk
  holds_countClosure hw := hw.countClosure
  holds_enter hw _ _ := hw.enter
  home_enter hw := .inr hw.extend.next_le

theorem eval_writtenFrom (limit : Nat) (f : FrameId) (e : Expr) (m : Machine) :
    m.heap.WrittenFrom f (eval limit f e m).2.heap :=
  ((Invariant.writtenFrom m.heap f).eval_holds (.refl m.heap f) limit (.inl rfl) trivial).1

/-- A call runs in new frames only. -/
theorem apply_writtenFrom (limit : Nat) (p : Expr) (args : List Expr) (m : Machine) :
    m.heap.WrittenFrom m.heap.next (EvalM.apply (eval limit) p args m).2.heap :=
  (Invariant.writtenFrom m.heap m.heap.next).apply_holds (.refl m.heap _) limit trivial
    fun _ _ => trivial

/-! ### Confinement -/

/-- In all frames, `set!` writes to the frame it is executed in. -/
def Heap.IsLocal (h : Heap) : Prop :=
  ∀ ⦃g frame⦄, h.frame? g = some frame → frame.policies.setScope = .current

/-- Without exposed frames, all frames but `f` stay as they were. -/
theorem Heap.WrittenFrom.frame?_eq {h₀ h : Heap} {f g : FrameId} (hw : h₀.WrittenFrom f h)
    (hlocal : h₀.IsLocal) (hg : g < h₀.next) (hgf : g ≠ f) : h.frame? g = h₀.frame? g := by
  obtain ⟨old, hold⟩ := exists_frame?_of_lt hg
  obtain hframe | ⟨c, frame, hframe, hscope, -⟩ := hw.frame_other hgf hold
  · rw [hframe, hold]
  · rw [hlocal hframe] at hscope
    cases hscope

/-- **Writes are confined.**  If `set!` writes to the current frame everywhere, then
evaluation in the frame `f` leaves all other frames there were exactly as they were,
whatever its outcome is; and a call, with all the calls it makes, leaves all of them so. -/
theorem eval_confined {m : Machine} (hlocal : m.heap.IsLocal) (limit : Nat) :
    (∀ f e g, g < m.heap.next → g ≠ f →
      (eval limit f e m).2.heap.frame? g = m.heap.frame? g) ∧
    ∀ p args g, g < m.heap.next →
      (EvalM.apply (eval limit) p args m).2.heap.frame? g = m.heap.frame? g :=
  ⟨fun f e _ hg hgf => (eval_writtenFrom limit f e m).frame?_eq hlocal hg hgf,
   fun p args _ hg => (apply_writtenFrom limit p args m).frame?_eq hlocal hg (Nat.ne_of_lt hg)⟩

/-- An assignment in a frame inside another one shadows the binding there. -/
theorem eval_confined_shadowing :
    let m : Machine :=
      { heap := { frames := #[{ bindings := [("x", .nil)] }, { outer := some 0 }] } }
    let m' := (eval 2 1 (.list [.assign "x" (.text "inner")]) m).2
    m.heap.IsLocal ∧ m'.heap.frame? 0 = m.heap.frame? 0 ∧ m'.heap.binds 1 "x" = true := by
  intro m m'
  have hlocal : m.heap.IsLocal := by
    intro g frame hframe
    match g with
    | 0 | 1 =>
        cases hframe
        rfl
    | g + 2 => cases hframe
  exact ⟨hlocal, (eval_confined hlocal 2).1 1 _ 0 (by decide) (by decide), by decide⟩

/-! ### Names -/

/-- **Frames only gain names, and only where code runs.**  Evaluation in the frame `f`,
whatever its outcome is, adds names behind the old ones in `f` and in no other frame
there was; other frames get new values only if they are exposed; no binding is lost;
and a name that was found is found in the same frame, or in `f` if that is nearer. -/
theorem eval_names_grow (limit : Nat) (f : FrameId) (e : Expr) (m : Machine) :
    (∀ g old, m.heap.frame? g = some old →
      ∃ frame, (eval limit f e m).2.heap.frame? g = some frame ∧
        old.bindings.names <+: frame.bindings.names ∧
        (g ≠ f → frame.bindings.names = old.bindings.names ∧
          (frame = old ∨ m.heap.Exposed g))) ∧
    (∀ g name, m.heap.binds g name = true →
      (eval limit f e m).2.heap.binds g name = true) ∧
    ∀ g name k, m.heap.find? g name = some k →
      (eval limit f e m).2.heap.find? g name = some k ∨
        ((eval limit f e m).2.heap.find? g name = some f ∧
          ∃ near far, m.heap.chain g = near ++ f :: far ∧ k ∈ far) := by
  have hw := eval_writtenFrom limit f e m
  refine ⟨fun g old hold => ?_, fun _ _ => hw.binds, fun _ _ _ => hw.find?_cases⟩
  obtain ⟨frame, hframe, -⟩ := hw.extend hold
  refine ⟨frame, hframe, hw.names hold hframe, fun hgf => ⟨hw.names_other hgf hold hframe, ?_⟩⟩
  refine (hw.frame_other hgf hold).imp_left fun hsame => ?_
  rw [hframe] at hsame
  exact Option.some.inj hsame

end FrameLisp
