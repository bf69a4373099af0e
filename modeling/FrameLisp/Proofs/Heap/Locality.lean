/-
FrameLisp/Proofs/Heap/Locality.lean

Evaluation sees and changes only the frames it can reach.

A frame leads to the frame around it and to the frames captured by the closures in its
bindings.  What is reachable from the frame `f` in this way is all that code running in
`f` can get at, besides the frames it makes itself:

    h₁, h₂ agree on h₁.Reach f  ⟹  same outcome, same text printed, and the heaps
                                    left agree there and on the new frames,

and neither run touches any other frame.  The frames reached at the beginning and all
later ones form a set `S` that is never left: a link or a captured frame met during the
run is in `S` already, since `S` is closed under both and only values from `S` are bound
in frames of `S`.  That two heaps agree on `S`, and that each is outside of `S` what it
was, is a coupling (`Coupling.isolated`), under the discipline that code gets at frames
of `S` only.

The heaps need not be well formed.  Of code it is asked that it refers to no frame out
of reach; code that was read refers to none.
-/
import FrameLisp.Proofs.Expr.Captures
import FrameLisp.Proofs.Session.Requests

namespace FrameLisp

namespace Heap

variable {h h₁ h₂ : Heap} {S T : FrameId → Prop} {f g : FrameId} {name : String} {v : Expr}

/-! ### Reachable frames -/

/-- The frames that can be reached from some frames along links and through the closures
held by bound values. -/
inductive ReachFrom (h : Heap) (starts : FrameId → Prop) : FrameId → Prop
  | start {g : FrameId} : starts g → ReachFrom h starts g
  | outer {g o : FrameId} {frame} :
      ReachFrom h starts g → h.frame? g = some frame → frame.outer = some o →
      ReachFrom h starts o
  | captured {g c : FrameId} {frame name} {v : Expr} :
      ReachFrom h starts g → h.frame? g = some frame → (name, v) ∈ frame.bindings →
      v.Carries c → ReachFrom h starts c

/-- The frames that can be reached from the frame `f`. -/
def Reach (h : Heap) (f : FrameId) : FrameId → Prop := h.ReachFrom fun g => g = f

/-- The frames that can be reached from the frames that closures among values captured. -/
def ReachOf (h : Heap) (vs : List Expr) : FrameId → Prop := h.ReachFrom (Expr.list vs).Carries

/-- The frames of `S`, and all that are still to be made. -/
def WithNew (h : Heap) (S : FrameId → Prop) (g : FrameId) : Prop := S g ∨ h.next ≤ g

/-- The bodies of the closures that are held in frames of `S` refer to frames of `S` only. -/
def CodeWithin (h : Heap) (S : FrameId → Prop) : Prop :=
  ∀ ⦃g frame name v⦄, S g → h.frame? g = some frame → (name, v) ∈ frame.bindings →
    v.CodeWithin S

/-- A set of frames that nothing in its frames leads out of, where code refers to frames of
`T` only. -/
structure Closed (h : Heap) (S T : FrameId → Prop) : Prop where
  outer {g o : FrameId} {frame} : S g → h.frame? g = some frame → frame.outer = some o → S o
  bound {g : FrameId} {frame name} {v : Expr} :
    S g → h.frame? g = some frame → (name, v) ∈ frame.bindings → v.Within S T

namespace Closed

/-- Nothing leads out of what is reachable; frames that there are not yet lead nowhere. -/
theorem of_reachFrom {starts : FrameId → Prop} (hcode : h.CodeWithin (h.ReachFrom starts)) :
    h.Closed (h.WithNew (h.ReachFrom starts)) (h.WithNew (h.ReachFrom starts)) := by
  -- a frame of the set that there is was reached: the others have nothing in them yet
  have hold : ∀ {g frame}, h.WithNew (h.ReachFrom starts) g → h.frame? g = some frame →
      h.ReachFrom starts g := by
    intro g frame hg hframe
    exact hg.resolve_right (Nat.not_le.mpr (lt_next_of_frame? hframe))
  constructor
  · intro g o frame hg hframe ho
    exact .inl (.outer (hold hg hframe) hframe ho)
  · intro g frame name v hg hframe hmem
    refine ⟨fun hc => .inl (.captured (hold hg hframe) hframe hmem hc), ?_⟩
    intro i params body c hc k hk
    exact .inl (hcode (hold hg hframe) hframe hmem hc k hk)

/-- What is reachable is in every closed set that has the starts. -/
theorem reachFrom_subset (hS : h.Closed S T) {starts : FrameId → Prop}
    (hstarts : ∀ g, starts g → S g) (hg : h.ReachFrom starts g) : S g := by
  induction hg with
  | start hg => exact hstarts _ hg
  | outer _ hframe ho ih => exact hS.outer ih hframe ho
  | captured _ hframe hmem hc ih => exact (hS.bound ih hframe hmem).captured hc

theorem mem_of_chain (hS : h.Closed S T) (hf : S f) : ∀ g ∈ h.chain f, S g :=
  chain_subset (fun _ _ _ hg hframe ho _ => hS.outer hg hframe ho) hf

/-- `set!` writes to a frame of `S`. -/
theorem mem_target (hS : h.Closed S T) (hf : S f) : S (h.target f name) := by
  unfold target
  split
  · exact hf
  · cases hfind : h.find? f name with
    | none => exact hf
    | some g => exact hS.mem_of_chain hf g (mem_chain_of_find? hfind).1

theorem define (hS : h.Closed S T) (hv : v.Within S T) : (h.define f name v).Closed S T := by
  constructor
  · intro g o frame hg hframe ho
    obtain ⟨rfl, old, hold, rfl⟩ | ⟨-, hframe⟩ := frame?_define_cases hframe
    · exact hS.outer hg hold ho
    · exact hS.outer hg hframe ho
  · intro g frame n w hg hframe hmem
    obtain ⟨rfl, old, hold, rfl⟩ | ⟨-, hframe⟩ := frame?_define_cases hframe
    · obtain hmem | heq := Bindings.mem_insert hmem
      · exact hS.bound hg hold hmem
      · cases heq
        exact hv
    · exact hS.bound hg hframe hmem

theorem push (hS : h.Closed S T) {frame : Frame} (houter : ∀ o, frame.outer = some o → S o)
    (hbound : ∀ p ∈ frame.bindings, p.2.Within S T) : (h.push frame).Closed S T := by
  constructor
  · intro g o frame' hg hframe ho
    obtain ⟨rfl, rfl⟩ | hframe := frame?_push_cases hframe
    · exact houter o ho
    · exact hS.outer hg hframe ho
  · intro g frame' n w hg hframe hmem
    obtain ⟨rfl, rfl⟩ | hframe := frame?_push_cases hframe
    · exact hbound (n, w) hmem
    · exact hS.bound hg hframe hmem

theorem countClosure (hS : h.Closed S T) : h.countClosure.Closed S T := ⟨hS.outer, hS.bound⟩

theorem enter (hS : h.Closed S T) {captured : FrameId} {params : List String}
    {args : List Expr} (hcaptured : S captured) (hargs : ∀ a ∈ args, a.Within S T) :
    (h.enter captured params args).Closed S T := by
  apply hS.push
  · intro o ho
    cases ho
    exact hcaptured
  · intro p hp
    exact hargs p.2 (Bindings.mem_args_of_mem_insertAll hp)

end Closed

/-! ### Heaps that agree -/

/-- The heaps have equally many frames and closures, and the same frames in `S`. -/
structure AgreeOn (S : FrameId → Prop) (h₁ h₂ : Heap) : Prop where
  next_eq : h₁.next = h₂.next
  closures_eq : h₁.closures = h₂.closures
  frame_eq {g : FrameId} : S g → h₁.frame? g = h₂.frame? g

namespace AgreeOn

/-- Frames that there are not yet are the same in both. -/
theorem with_new (hagree : AgreeOn S h₁ h₂) : AgreeOn (h₁.WithNew S) h₁ h₂ where
  next_eq := hagree.next_eq
  closures_eq := hagree.closures_eq
  frame_eq {g} hg := by
    rcases hg with hg | hg
    · exact hagree.frame_eq hg
    · rw [frame?_eq_none hg, frame?_eq_none (hagree.next_eq ▸ hg)]

theorem policies_eq (hagree : AgreeOn S h₁ h₂) (hf : S f) :
    h₁.policies f = h₂.policies f := by
  rw [policies, policies, hagree.frame_eq hf]

theorem chain_eq (hagree : AgreeOn S h₁ h₂) (hS : h₁.Closed S T) (hf : S f) :
    h₁.chain f = h₂.chain f := by
  refine (chain_congr (fun _ _ _ hg hframe ho _ => hS.outer hg hframe ho) (fun g hg => ?_) hf).symm
  rw [hagree.frame_eq hg]

/-- A name is found in the same frame. -/
theorem find?_eq (hagree : AgreeOn S h₁ h₂) (hS : h₁.Closed S T) (hf : S f) :
    h₁.find? f name = h₂.find? f name := by
  have hbinds : ∀ g ∈ h₁.chain f, h₁.binds g name = h₂.binds g name := by
    intro g hg
    rw [binds, binds, hagree.frame_eq (hS.mem_of_chain hf g hg)]
  -- predicates that agree on a list give the same filtered list, hence the same first item
  rw [find?, find?, ← hagree.chain_eq hS hf, ← List.head?_filter, ← List.head?_filter,
    List.filter_congr hbinds]

theorem lookup_eq (hagree : AgreeOn S h₁ h₂) (hS : h₁.Closed S T) (hf : S f) :
    h₁.lookup f name = h₂.lookup f name := by
  have hget : ((h₁.find? f name).bind fun g => h₁.get? g name) =
      (h₂.find? f name).bind fun g => h₂.get? g name := by
    rw [← hagree.find?_eq hS hf]
    cases hfind : h₁.find? f name with
    | none => rfl
    | some g =>
        have hg : S g := hS.mem_of_chain hf g (mem_chain_of_find? hfind).1
        show h₁.get? g name = h₂.get? g name
        rw [get?, get?, hagree.frame_eq hg]
  rw [lookup, lookup, hget, hagree.policies_eq hf]

theorem target_eq (hagree : AgreeOn S h₁ h₂) (hS : h₁.Closed S T) (hf : S f) :
    h₁.target f name = h₂.target f name := by
  rw [target, target, hagree.policies_eq hf, hagree.find?_eq hS hf]

theorem define (hagree : AgreeOn S h₁ h₂) :
    AgreeOn S (h₁.define f name v) (h₂.define f name v) where
  next_eq := by rw [next_define, next_define, hagree.next_eq]
  closures_eq := hagree.closures_eq
  frame_eq {g} hg := by
    by_cases hgf : g = f
    · subst hgf
      rw [frame?_define_self, frame?_define_self, hagree.frame_eq hg]
    · rw [frame?_define_of_ne hgf, frame?_define_of_ne hgf, hagree.frame_eq hg]

theorem countClosure (hagree : AgreeOn S h₁ h₂) :
    AgreeOn S h₁.countClosure h₂.countClosure where
  next_eq := hagree.next_eq
  closures_eq := congrArg (· + 1) hagree.closures_eq
  frame_eq := hagree.frame_eq

theorem enter (hagree : AgreeOn S h₁ h₂) {captured : FrameId} {params : List String}
    {args : List Expr} (hcaptured : S captured) :
    AgreeOn S (h₁.enter captured params args) (h₂.enter captured params args) where
  next_eq := by rw [next_enter, next_enter, hagree.next_eq]
  closures_eq := hagree.closures_eq
  frame_eq {g} hg := by
    rw [Heap.enter, Heap.enter, frame?_push, frame?_push, hagree.next_eq,
      hagree.policies_eq hcaptured, hagree.frame_eq hg]

end AgreeOn

/-! ### Heaps that are untouched -/

/-- Outside of `S`, the frames of `h` are those of `h₀`. -/
def SameOutside (S : FrameId → Prop) (h₀ h : Heap) : Prop :=
  ∀ ⦃g⦄, ¬S g → h.frame? g = h₀.frame? g

namespace SameOutside

variable {h₀ : Heap}

theorem define (hsame : SameOutside S h₀ h) (hf : S f) :
    SameOutside S h₀ (h.define f name v) := by
  intro g hg
  have hgf : g ≠ f := fun heq => hg (heq ▸ hf)
  rw [frame?_define_of_ne hgf, hsame hg]

theorem push (hsame : SameOutside S h₀ h) (hnext : S h.next) (frame : Frame) :
    SameOutside S h₀ (h.push frame) := by
  intro g hg
  have hne : g ≠ h.next := fun heq => hg (heq ▸ hnext)
  rw [frame?_push, if_neg hne, hsame hg]

end SameOutside

/-! ### Two runs in a set of frames -/

/-- What two heaps, at first `k₁` and `k₂`, have become while code was running in a closed
set of frames on which they agreed, which takes in all new frames. -/
structure Isolated (S : FrameId → Prop) (k₁ k₂ h₁ h₂ : Heap) : Prop where
  agree : AgreeOn S h₁ h₂
  closed : h₁.Closed S S
  new {g : FrameId} : h₁.next ≤ g → S g
  outside₁ : SameOutside S k₁ h₁
  outside₂ : SameOutside S k₂ h₂

namespace Isolated

variable {k₁ k₂ : Heap}

/-- At first, what has to agree is what is reachable. -/
theorem of_agreeOn {starts : FrameId → Prop} (hcode : h₁.CodeWithin (h₁.ReachFrom starts))
    (hagree : AgreeOn (h₁.ReachFrom starts) h₁ h₂) :
    Isolated (h₁.WithNew (h₁.ReachFrom starts)) h₁ h₂ h₁ h₂ where
  agree := hagree.with_new
  closed := .of_reachFrom hcode
  new hg := .inr hg
  outside₁ _ _ := rfl
  outside₂ _ _ := rfl

theorem define (hi : Isolated S k₁ k₂ h₁ h₂) (hf : S f)
    (hv : v.Within S S) :
    Isolated S k₁ k₂ (h₁.define f name v) (h₂.define f name v) where
  agree := hi.agree.define
  closed := hi.closed.define hv
  new hg := hi.new (by rwa [next_define] at hg)
  outside₁ := hi.outside₁.define hf
  outside₂ := hi.outside₂.define hf

/-- In both heaps, `set!` writes to the same frame. -/
theorem assign (hi : Isolated S k₁ k₂ h₁ h₂) (hf : S f)
    (hv : v.Within S S) :
    Isolated S k₁ k₂ (h₁.assign f name v) (h₂.assign f name v) := by
  rw [Heap.assign, Heap.assign, ← hi.agree.target_eq hi.closed hf]
  exact hi.define (hi.closed.mem_target hf) hv

theorem countClosure (hi : Isolated S k₁ k₂ h₁ h₂) :
    Isolated S k₁ k₂ h₁.countClosure h₂.countClosure where
  agree := hi.agree.countClosure
  closed := hi.closed.countClosure
  new := hi.new
  outside₁ := hi.outside₁
  outside₂ := hi.outside₂

theorem enter (hi : Isolated S k₁ k₂ h₁ h₂) {captured : FrameId} {params : List String}
    {args : List Expr} (hcaptured : S captured)
    (hargs : ∀ a ∈ args, a.Within S S) :
    Isolated S k₁ k₂ (h₁.enter captured params args) (h₂.enter captured params args) where
  agree := hi.agree.enter hcaptured
  closed := hi.closed.enter hcaptured hargs
  new hg := hi.new (Nat.le_of_succ_le (by rwa [next_enter] at hg))
  -- the new frame has the same number in both heaps
  outside₁ := hi.outside₁.push (hi.new (Nat.le_refl _)) _
  outside₂ := hi.outside₂.push (hi.new (Nat.le_of_eq hi.agree.next_eq)) _

theorem value_of_lookup (hi : Isolated S k₁ k₂ h₁ h₂) (hf : S f)
    (hv : h₁.lookup f name = .ok v) : v.Within S S := by
  obtain rfl | ⟨g, hg, frame, hframe, hmem⟩ := lookup_cases hv
  · exact .of_atom rfl
  · exact hi.closed.bound (hi.closed.mem_of_chain hf g hg) hframe hmem

end Isolated

end Heap

/-- Code that gets at frames of `S` only keeps two heaps equal on `S` and untouched
outside of it. -/
def Coupling.isolated (S : FrameId → Prop) (k₁ k₂ : Heap) : Coupling where
  toDiscipline := .within S S fun _ hg => hg
  rel h₁ h₂ := Heap.Isolated S k₁ k₂ h₁ h₂
  next_eq hi := hi.agree.next_eq
  closures_eq hi := hi.agree.closures_eq
  lookup_eq hi hf _ := hi.agree.lookup_eq hi.closed hf
  value_lookup hi hf _ hv := hi.value_of_lookup hf hv
  rel_define hi hf hv := hi.define hf hv
  rel_assign hi hf hv := hi.assign hf hv
  rel_countClosure hi := hi.countClosure
  rel_enter hi hp hargs := hi.enter (hp.captured ⟨_, _, _, .self⟩) hargs
  home_enter hi := hi.new (Nat.le_refl _)

/-! ### Locality -/

/-- Of two heaps, a run sees and changes only the frames of `S` and those it adds: it ends
alike on both and prints the same, the heaps left agree on these frames, and all others
are as they were. -/
def EvalM.SeesOnly {α : Type} (x : EvalM α) (S : FrameId → Prop) (h₁ h₂ : Heap) : Prop :=
  ∀ t, ∃ r h₁' h₂' t', x ⟨h₁, t⟩ = (r, ⟨h₁', t'⟩) ∧ x ⟨h₂, t⟩ = (r, ⟨h₂', t'⟩) ∧
    Heap.AgreeOn (h₁.WithNew S) h₁' h₂' ∧
    ∀ g, g < h₁.next → ¬S g → h₁'.frame? g = h₁.frame? g ∧ h₂'.frame? g = h₂.frame? g

theorem EvalM.seesOnly_of_alike {α : Type} {x : EvalM α} {S : FrameId → Prop}
    {Q : Nat → α → Prop} {h₁ h₂ : Heap}
    (hx : ∀ t, (Coupling.isolated (h₁.WithNew S) h₁ h₂).Alike x Q ⟨h₁, t⟩ ⟨h₂, t⟩) :
    x.SeesOnly S h₁ h₂ := by
  intro t
  obtain ⟨r, ⟨h₁', t₁⟩, ⟨h₂', t₂⟩, hx₁, hx₂, ⟨hi, hprinted⟩, -, -⟩ := hx t
  cases hprinted
  refine ⟨r, h₁', h₂', t₁, hx₁, hx₂, hi.agree, fun g hg hgS => ?_⟩
  have hout : ¬h₁.WithNew S g := fun h => h.elim hgS (Nat.not_le.mpr hg)
  exact ⟨hi.outside₁ hout, hi.outside₂ hout⟩

theorem eval_seesOnly {h₁ h₂ : Heap} {f : FrameId} {e : Expr} (limit : Nat)
    (hcode : h₁.CodeWithin (h₁.Reach f)) (he : ∀ g, e.Captures g → h₁.Reach f g)
    (hagree : Heap.AgreeOn (h₁.Reach f) h₁ h₂) :
    (eval limit f e).SeesOnly (h₁.Reach f) h₁ h₂ := by
  apply EvalM.seesOnly_of_alike
  intro t
  apply Coupling.eval_alike
  · exact ⟨.of_agreeOn hcode hagree, rfl⟩
  · exact .inl (.start rfl)
  · intro g hg
    exact .inl (he g hg)

theorem apply_seesOnly {h₁ h₂ : Heap} {p : Expr} {args : List Expr} (limit : Nat)
    (hcode : h₁.CodeWithin (h₁.ReachOf (p :: args)))
    (hcall : (Expr.list (p :: args)).CodeWithin (h₁.ReachOf (p :: args)))
    (hagree : Heap.AgreeOn (h₁.ReachOf (p :: args)) h₁ h₂) :
    (EvalM.apply (eval limit) p args).SeesOnly (h₁.ReachOf (p :: args)) h₁ h₂ := by
  let S := h₁.WithNew (h₁.ReachOf (p :: args))
  have hlist : (Expr.list (p :: args)).Within S S :=
    ⟨fun hg => .inl (.start hg), fun _ _ _ _ hc g hg => .inl (hcall hc g hg)⟩
  have hvalue := Expr.within_list.mp hlist
  apply EvalM.seesOnly_of_alike
  intro t
  apply Coupling.alike_apply (Coupling.eval_alike _ limit)
  · exact ⟨.of_agreeOn hcode hagree, rfl⟩
  · exact hvalue p List.mem_cons_self
  · intro a ha
    exact hvalue a (List.mem_cons_of_mem _ ha)

/-! ### Sessions -/

/-- Evaluation keeps the bodies of all closures as they were read. -/
def Invariant.readCode : Invariant where
  toDiscipline := .within (fun _ => True) (fun _ => False) fun _ _ => trivial
  holds h := h.Closed (fun _ => True) fun _ => False
  value_bound hh hframe hmem := hh.bound trivial hframe hmem
  holds_define hh _ hv := hh.define hv
  holds_assign hh _ hv := hh.define hv
  holds_countClosure hh := hh.countClosure
  holds_enter hh _ hargs := hh.enter trivial hargs
  home_enter _ := trivial

/-- In a session, no code refers to frames by itself. -/
theorem Session.afterAll_codeWithin (p : Policies) (limit : Nat) (rs : List Request)
    (S : FrameId → Prop) : ((start p limit).afterAll rs).heap.CodeWithin S := by
  have hframe : (Heap.newFrame {} none p).Closed (fun _ => True) fun _ => False :=
    Heap.Closed.push ⟨nofun, nofun⟩ nofun nofun
  have hstandard : ∀ q ∈ standardBindings, Invariant.readCode.value 1 q.2 :=
    fun q hq => Expr.Within.of_not_captures fun _ => not_captures_standardBindings q hq
  have hstart : Invariant.readCode.Ready (start p limit) :=
    Invariant.start_ready hframe trivial hstandard limit
  obtain ⟨hclosed, -⟩ := Invariant.afterAll_ready
    (fun hderives _ hg => hderives.not_captures hg) hstart rs
  intro g frame name v _ hframe hmem i params body c hc k hk
  exact ((hclosed.bound trivial hframe hmem).code hc k hk).elim

/-- **Evaluation is local.**  If two heaps agree on what is reachable from the frame `f`,
then evaluation in `f` sees and changes nothing else, in either of them and whatever its
outcome is.  A call sees and changes nothing but what is reachable from the frames that
the procedure and the arguments captured, so that closures with no frame in common have
nothing to do with each other.  In a session no condition on code is needed. -/
theorem eval_local :
    (∀ limit f e h₁ h₂, h₁.CodeWithin (h₁.Reach f) → (∀ g, e.Captures g → h₁.Reach f g) →
      Heap.AgreeOn (h₁.Reach f) h₁ h₂ → (eval limit f e).SeesOnly (h₁.Reach f) h₁ h₂) ∧
    (∀ limit p args h₁ h₂,
      let R := h₁.ReachOf (p :: args)
      h₁.CodeWithin R → (Expr.list (p :: args)).CodeWithin R →
      Heap.AgreeOn R h₁ h₂ → (EvalM.apply (eval limit) p args).SeesOnly R h₁ h₂) ∧
    ∀ policies nesting rs limit f tokens e h₂,
      let h₁ := ((Session.start policies nesting).afterAll rs).heap
      Derives tokens e →
      Heap.AgreeOn (h₁.Reach f) h₁ h₂ → (eval limit f e).SeesOnly (h₁.Reach f) h₁ h₂ := by
  refine ⟨fun limit _ _ _ _ => eval_seesOnly limit,
    fun limit _ _ _ _ => apply_seesOnly limit, ?_⟩
  intro policies nesting rs limit f tokens e h₂ h₁ hderives hagree
  refine eval_seesOnly limit (Session.afterAll_codeWithin policies nesting rs _) ?_ hagree
  intro g hg
  exact absurd hg hderives.not_captures

/-- Of two closures made by separate calls, the one does not see the variables of the
other. -/
theorem eval_local_siblings :
    let heap (other : Expr) : Heap :=
      { frames := #[{}, { bindings := [("n", .nil)], outer := some 0 },
          { bindings := [("n", other)], outer := some 0 }] }
    let p : Expr := .closure 0 [] (.symbol "n") 1
    ¬(heap .nil).ReachOf [p] 2 ∧
      (EvalM.apply (eval 1) p []).SeesOnly ((heap .nil).ReachOf [p]) (heap .nil)
        (heap (.text "other")) := by
  intro heap p
  let S : FrameId → Prop := fun g => g < 2
  have hcall : (Expr.list [p]).Within S fun _ => False := by
    refine Expr.within_list.mpr (List.forall_mem_singleton.mpr ?_)
    refine Expr.within_closure (Nat.lt_succ_self 1) fun g => ?_
    exact Expr.not_captures_of_parts rfl (by simp [Expr.parts])
  have hclosed : (heap .nil).Closed S fun _ => False := by
    constructor
    · intro g o frame hg hframe ho
      match g with
      | 0 =>
          cases hframe
          cases ho
      | 1 =>
          cases hframe
          cases ho
          exact Nat.zero_lt_succ 1
    · intro g frame name v hg hframe hmem
      match g with
      | 0 =>
          cases hframe
          cases hmem
      | 1 =>
          cases hframe
          cases List.mem_singleton.mp hmem
          exact .of_atom rfl
  have hreach : ∀ {g}, (heap .nil).ReachOf [p] g → S g :=
    hclosed.reachFrom_subset fun _ => hcall.captured
  refine ⟨fun hg => Nat.lt_irrefl 2 (hreach hg), eval_local.2.1 1 p [] _ _ ?_ ?_ ?_⟩
  · intro g frame name v hg hframe hmem i params body c hc k hk
    exact ((hclosed.bound (hreach hg) hframe hmem).code hc k hk).elim
  · intro i params body c hc k hk
    exact (hcall.code hc k hk).elim
  · refine ⟨rfl, rfl, fun {g} hg => ?_⟩
    have hlt : g < 2 := hreach hg
    match g with
    | 0 | 1 => rfl

end FrameLisp
