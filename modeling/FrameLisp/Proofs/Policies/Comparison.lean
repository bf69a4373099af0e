/-
FrameLisp/Proofs/Policies/Comparison.lean

The same program under different policies.

Two heaps that differ in a policy only are the same heap with that policy set in all frames
to one and to the other.  A run from the one and the run from the other go in lockstep,
since policies have no say in anything but what a name that is not bound comes to and which
frame `set!` writes to.  So they part only where a policy says something else:

* unbound names as faults against unbound names as nothing: where a name is reported as
  unbound, which ends the run (`strict_conservative`);
* `set!` in the nearest frame against `set!` in the current one: where a `set!` is executed
  that writes to another frame than the current one (`setScope_agree`).
-/
import FrameLisp.Proofs.Evaluation.Stops
import FrameLisp.Proofs.Expr.Bodies
import FrameLisp.Proofs.Heap.Mapped

namespace FrameLisp

/-! ### Heaps with other policies -/

namespace Heap

variable {h : Heap} {f : FrameId} {name : String} {π ρ : Policies → Policies}

/-- Change the policies of all frames. -/
def mapPolicies (π : Policies → Policies) (h : Heap) : Heap :=
  h.mapFrames fun frame => { frame with policies := π frame.policies }

/-- What unbound names come to is `u` in all frames. -/
def withUnbound (u : UnboundPolicy) : Heap → Heap := mapPolicies fun p => { p with unbound := u }

/-- Where `set!` writes is `s` in all frames. -/
def withSetScope (s : SetScope) : Heap → Heap := mapPolicies fun p => { p with setScope := s }

/-- Frames that there are not have the policies that frames have by default. -/
theorem policies_mapPolicies (hπ : π {} = {}) : (h.mapPolicies π).policies f = π (h.policies f) := by
  rw [policies, policies, mapPolicies, frame?_mapFrames]
  cases h.frame? f with
  | none => exact hπ.symm
  | some frame => rfl

theorem mapPolicies_mapPolicies : (h.mapPolicies ρ).mapPolicies π = h.mapPolicies fun p => π (ρ p) :=
  mapFrames_mapFrames

theorem get?_mapPolicies : (h.mapPolicies π).get? f name = h.get? f name :=
  get?_mapFrames fun _ => rfl

theorem find?_mapPolicies : (h.mapPolicies π).find? f name = h.find? f name :=
  find?_mapFrames (fun _ => rfl) fun _ => rfl

theorem mapPolicies_define (f : FrameId) (name : String) (v : Expr) :
    (h.define f name v).mapPolicies π = (h.mapPolicies π).define f name v :=
  mapFrames_define fun _ => rfl

theorem mapPolicies_enter (hπ : π {} = {}) (captured : FrameId) (params : List String)
    (args : List Expr) :
    (h.enter captured params args).mapPolicies π =
      (h.mapPolicies π).enter captured params args := by
  have hpush : (h.enter captured params args).mapPolicies π =
      (h.mapPolicies π).push
        { bindings := Bindings.insertAll [] (params.zip args)
          outer := some captured
          policies := π (h.policies captured) } := mapFrames_push _
  rw [hpush, enter, policies_mapPolicies hπ]

/-- What is found under a name is the same whatever the policies are. -/
theorem found_mapPolicies :
    (((h.mapPolicies π).find? f name).bind fun g => (h.mapPolicies π).get? g name) =
      (h.find? f name).bind fun g => h.get? g name := by
  have hget : (fun g => (h.mapPolicies π).get? g name) = fun g => h.get? g name :=
    funext fun g => get?_mapPolicies
  rw [find?_mapPolicies, hget]

/-- Where the policies agree on unbound names, a name has the same value. -/
theorem lookup_mapPolicies (hπ : π {} = {})
    (hunbound : (π (h.policies f)).unbound = (h.policies f).unbound) :
    (h.mapPolicies π).lookup f name = h.lookup f name := by
  rw [lookup, lookup, found_mapPolicies, policies_mapPolicies hπ, hunbound]

/-- Where the policies agree on `set!`, it writes to the same frame. -/
theorem target_mapPolicies (hπ : π {} = {})
    (hscope : (π (h.policies f)).setScope = (h.policies f).setScope) :
    (h.mapPolicies π).target f name = h.target f name := by
  rw [target, target, find?_mapPolicies, policies_mapPolicies hπ, hscope]

theorem bodiesIn_mapPolicies {C : Expr → Prop} (hh : h.BodiesIn C) :
    (h.mapPolicies π).BodiesIn C := by
  intro g frame name v hframe hmem
  rw [mapPolicies, frame?_mapFrames, Option.map_eq_some_iff] at hframe
  obtain ⟨frame, hframe, rfl⟩ := hframe
  exact hh hframe hmem

end Heap

/-! ### Runs under other policies -/

namespace Variation

/-- Runs that start with other policies.  Frames are entered with the default policies if
the captured frame is missing, so these must not change. -/
def ofPolicies (π : Policies → Policies) (hπ : π {} = {}) : Variation where
  extra := 0
  heap := Heap.mapPolicies π
  before := ""
  next_heap _ := Heap.next_mapFrames
  closures_heap _ := Heap.closures_mapFrames
  heap_define _ := Heap.mapPolicies_define
  heap_countClosure _ := Heap.mapFrames_countClosure
  heap_enter _ := Heap.mapPolicies_enter hπ

variable {π : Policies → Policies} {hπ : π {} = {}}

@[simp] theorem machine_ofPolicies (m : Machine) :
    (ofPolicies π hπ).machine m = ⟨m.heap.mapPolicies π, m.printed⟩ := by
  simp [machine, ofPolicies]

@[simp] theorem call_ofPolicies (c : Call) :
    (ofPolicies π hπ).call c =
      ⟨c.limit, c.frame, c.expr, ⟨c.machine.heap.mapPolicies π, c.machine.printed⟩⟩ := by
  rw [call, machine_ofPolicies]
  simp [ofPolicies]

end Variation

/-! ### Unbound names -/

section Unbound

/-- Unbound names give nothing. -/
def Variation.lenient : Variation := .ofPolicies (fun p => { p with unbound := .givesNil }) rfl

/-- A name that is not reported as unbound has the same value if unbound names give
nothing. -/
theorem Heap.lookup_withUnbound (h : Heap) (f : FrameId) (name : String) :
    (h.withUnbound .givesNil).lookup f name = h.lookup f name ∨
      h.lookup f name = .error (.unbound name) := by
  rw [withUnbound, lookup, lookup, found_mapPolicies, policies_mapPolicies rfl]
  cases (h.find? f name).bind fun g => h.get? g name with
  | some v => exact .inl rfl
  | none =>
      cases (h.policies f).unbound with
      | givesNil => exact .inl rfl
      | fails => exact .inr rfl

/-- The two runs part only where a name is reported as unbound. -/
theorem Variation.lenient_parting :
    lenient.Parting (lenient.StopsFirst (·.isUnbound = true)) where
  limit _ _ _ := .inl rfl
  lookup l f name m := by
    refine (m.heap.lookup_withUnbound f name).imp_right fun hlookup => ?_
    have hrun : Call.run ⟨l + 1, f, .symbol name, m⟩ = (.error (.fault (.unbound name)), m) := by
      refine (EvalM.lookup_apply f name m).trans ?_
      rw [hlookup]
      rfl
    -- looking a name up prints nothing
    have hprinted : (lenient.call ⟨l + 1, f, .symbol name, m⟩).run.2.printed = m.printed := by
      rw [lenient, call_ofPolicies]
      exact congrArg (fun r => r.2.printed) (EvalM.lookup_apply f name _)
    refine ⟨⟨_, congrArg Prod.fst hrun, rfl⟩, "", ?_⟩
    rw [hprinted, hrun, String.append_empty]
  assign name rest _ := .inl (Heap.target_mapPolicies rfl rfl)
  made := StopsFirst.made

/-- **Unbound names as faults are a conservative restriction.**  Take a heap in which they
are faults in all frames, and the same heap in which they give nothing.  If the run from the
first reports no name as unbound, then the run from the second ends in the same way, has
printed the same text and leaves the same heap up to that policy.  If it does report one,
then what it has printed is the beginning of what the run from the second prints. -/
theorem strict_conservative (limit : Nat) (f : FrameId) (e : Expr) (h : Heap) (t : String) :
    let strict := eval limit f e ⟨h.withUnbound .fails, t⟩
    let lenient := eval limit f e ⟨h.withUnbound .givesNil, t⟩
    ((∀ stop, strict.1 = .error stop → stop.isUnbound = false) →
      lenient.1 = strict.1 ∧ lenient.2.printed = strict.2.printed ∧
        lenient.2.heap = strict.2.heap.withUnbound .givesNil) ∧
    (∀ stop, strict.1 = .error stop → stop.isUnbound = true →
      ∃ rest, lenient.2.printed = strict.2.printed ++ rest) := by
  intro strict lenient
  have hcall : Variation.lenient.call ⟨limit, f, e, ⟨h.withUnbound .fails, t⟩⟩ =
      ⟨limit, f, e, ⟨h.withUnbound .givesNil, t⟩⟩ := by
    rw [Variation.lenient, Variation.call_ofPolicies]
    simp only [Heap.withUnbound, Heap.mapPolicies_mapPolicies]
  constructor
  · intro hnot
    have hagrees := Variation.lenient_parting.agrees
      (c := ⟨limit, f, e, ⟨h.withUnbound .fails, t⟩⟩) fun s hs hunbound => by
        rw [hnot s hs] at hunbound
        cases hunbound
    rw [Variation.Agrees, hcall, Variation.lenient, Variation.machine_ofPolicies] at hagrees
    have hlenient : lenient =
        (strict.1, ⟨strict.2.heap.withUnbound .givesNil, strict.2.printed⟩) := hagrees
    rw [hlenient]
    exact ⟨rfl, rfl, rfl⟩
  · intro stop _ _
    have hprinted := Variation.lenient_parting.printed rfl
      ⟨limit, f, e, ⟨h.withUnbound .fails, t⟩⟩
    rw [hcall] at hprinted
    exact hprinted

/-- A program that stops in the frame of a call without reporting a name, and one that has
printed something when it reports `y`. -/
theorem strict_conservative_printed :
    let h : Heap := (Heap.newFrame {} none {}).define 0 "print" (.native .print)
    let silent : Expr := .list [.list [.lambda ["x"] (.list [.text "b"])], .text "a"]
    let reported : Expr :=
      .list [.symbol "print", .list [.symbol "print", .text "a"], .symbol "y"]
    let strict (e : Expr) := eval 3 0 e ⟨h.withUnbound .fails, ""⟩
    let lenient (e : Expr) := eval 3 0 e ⟨h.withUnbound .givesNil, ""⟩
    (strict silent).1 = .error (.fault (.notProcedure (.text "b"))) ∧
    (lenient silent).1 = (strict silent).1 ∧
    (lenient silent).2.heap = (strict silent).2.heap.withUnbound .givesNil ∧
    strict reported = (.error (.fault (.unbound "y")), ⟨h.withUnbound .fails, "\"a\"\n"⟩) ∧
    ∃ rest, (lenient reported).2.printed = (strict reported).2.printed ++ rest := by
  intro h silent reported strict lenient
  let m (t : String) : Machine := ⟨h.withUnbound .fails, t⟩
  have hsilent : (strict silent).1 = .error (.fault (.notProcedure (.text "b"))) := rfl
  have hprint : ∀ l t, eval (l + 1) 0 (.symbol "print") (m t) = (.ok (.native .print), m t) :=
    fun l t => eval_symbol_of_get? (Heap.get?_mapPolicies.trans rfl) l
  have hy : ∀ t, eval 2 0 (.symbol "y") (m t) = (.error (.fault (.unbound "y")), m t) := by
    intro t
    have hpolicies : ((h.withUnbound .fails).policies 0).unbound = .fails := by
      rw [Heap.policies, Heap.withUnbound, Heap.mapPolicies, Heap.frame?_mapFrames]
      rfl
    have hfind : h.find? 0 "y" = none := by
      rw [Heap.find?, Heap.chain]
      rfl
    have hlookup : (h.withUnbound .fails).lookup 0 "y" = .error (.unbound "y") := by
      rw [Heap.lookup, Heap.withUnbound, Heap.found_mapPolicies, hfind, ← Heap.withUnbound,
        hpolicies]
      rfl
    refine (EvalM.lookup_apply 0 "y" (m t)).trans ?_
    rw [hlookup]
    rfl
  let first : Expr := .list [.symbol "print", .text "a"]
  have hfirst : eval 2 0 first (m "") = (.ok .nil, m "\"a\"\n") := by
    rw [eval_apply rfl, Run.bind_ok (hprint 0 "")]
    rfl
  have hbefore : [first].mapM (eval 2 0) (m "") = (.ok [.nil], m "\"a\"\n") :=
    Run.mapM_cons_ok hfirst rfl
  have hargs : [first, .symbol "y"].mapM (eval 2 0) (m "") =
      (.error (.fault (.unbound "y")), m "\"a\"\n") :=
    (Run.mapM_append_cons hbefore (.symbol "y") []).trans (Run.bind_error (hy _))
  have hreported : strict reported = (.error (.fault (.unbound "y")), m "\"a\"\n") := by
    refine (congrFun (eval_apply rfl 2 0 _) _).trans ((Run.bind_ok (hprint 1 "")).trans ?_)
    exact Run.bind_error hargs
  obtain ⟨houtcome, -, hheap⟩ := (strict_conservative 3 0 silent h "").1 fun stop hstop => by
    cases hsilent.symm.trans hstop
    rfl
  exact ⟨hsilent, houtcome, hheap, hreported,
    (strict_conservative 3 0 reported h "").2 _ (congrArg Prod.fst hreported) rfl⟩

end Unbound

/-! ### Where `set!` writes -/

section SetScope

variable {h : Heap} {f : FrameId} {name : String}

/-- If the call is a `set!` that is executed, it writes to the frame it is executed in. -/
def Call.AssignsInPlace (c : Call) : Prop :=
  ∀ ⦃l name e rest v m⦄, c.limit = l + 1 → c.expr = .list (.assign name e :: rest) →
    eval l c.frame e c.machine = (.ok v, m) → m.heap.target c.frame name = c.frame

/-- With `set!` in the nearest frame, it stays in the current one exactly if the name is bound
there or nowhere on the chain. -/
theorem Heap.target_eq_self_iff (hscope : (h.policies f).setScope = .nearest) :
    h.target f name = f ↔ h.binds f name = true ∨ ∀ g ∈ h.chain f, h.binds g name = false := by
  rw [target, hscope]
  dsimp only
  cases hframe : h.frame? f with
  | none =>
      rw [policies, hframe] at hscope
      cases hscope
  | some frame =>
      obtain ⟨outer, hchain⟩ := exists_chain_eq_cons hframe
      cases hbinds : h.binds f name with
      | true => simp [find?, hchain, hbinds]
      | false =>
          -- the name is found further out, or not at all
          cases hfind : h.find? f name with
          | none => simpa [find?] using hfind
          | some g =>
              obtain ⟨hmem, hg⟩ := mem_chain_of_find? hfind
              have hne : g ≠ f := by
                rintro rfl
                rw [hbinds] at hg
                cases hg
              simp only [Option.getD_some, hne, Bool.false_eq_true, false_or, false_iff]
              intro hnone
              rw [hnone g hmem] at hg
              cases hg

/-- `set!` writes to the current frame. -/
def Variation.setHere : Variation := .ofPolicies (fun p => { p with setScope := .current }) rfl

/-- The two runs part only where a `set!` is executed that writes elsewhere. -/
theorem Variation.setHere_parting :
    Variation.setHere.Parting fun c => ∃ d, c.Leads d ∧ ¬d.AssignsInPlace where
  limit _ _ _ := .inl rfl
  lookup l f name m := .inl (Heap.lookup_mapPolicies rfl rfl)
  assign := by
    intro l f e v m m' name rest hv
    by_cases hplace : m'.heap.target f name = f
    · refine .inl ?_
      have hpolicies : (Variation.setHere.heap m'.heap).policies f = _ :=
        Heap.policies_mapPolicies rfl
      rw [hplace, Heap.target, hpolicies]
    · refine .inr ⟨_, .refl, fun hinplace => hplace ?_⟩
      exact hinplace rfl rfl hv
  made hmakes _ := by
    rintro ⟨o, hleads, ho⟩
    exact ⟨o, hleads.head hmakes, ho⟩

/-- An expression in which no `set!` occurs. -/
def Expr.SetFree : Expr → Prop := Lacks fun d => ∃ name e, d = .assign name e

/-- Code without `set!` executes none, and neither do closures with such bodies. -/
theorem assignsInPlace_of_setFree {c d : Call} (hcode : c.expr.SetFree)
    (hbodies : c.machine.heap.BodiesIn Expr.SetFree) (hleads : c.Leads d) : d.AssignsInPlace := by
  have hc : (Invariant.ofCode (Expr.closedUnderParts_lacks _)).Admits c :=
    ⟨hbodies, trivial, hcode⟩
  have hd : d.expr.SetFree := (Invariant.admits_of_leads hleads hc).code
  intro l name e rest v m _ hexpr _
  -- the call would have a `set!` in its code
  rw [hexpr] at hd
  exact absurd ⟨name, e, rfl⟩ (hd _ (.part List.mem_cons_self .self))

/-- **The scopes of `set!` differ only where it writes to another frame.**  Take a heap in
which `set!` writes to the nearest frame, wherever it is executed, and the same heap in which
it writes to the current one.  If no `set!` that is executed in the run from the first writes
to another frame than the current one, then the run from the second ends in the same way, has
printed the same text and leaves the same heap up to that policy.  That `set!` writes to the
current frame is to say that the name is bound there or nowhere on the chain; and where
neither the expression nor any closure has a `set!` in it, none is executed. -/
theorem setScope_agree (limit : Nat) (f : FrameId) (e : Expr) (h : Heap) (t : String) :
    let nearest : Call := ⟨limit, f, e, ⟨h.withSetScope .nearest, t⟩⟩
    let current := eval limit f e ⟨h.withSetScope .current, t⟩
    let agree := current.1 = nearest.run.1 ∧ current.2.printed = nearest.run.2.printed ∧
      current.2.heap = nearest.run.2.heap.withSetScope .current
    ((∀ d, nearest.Leads d → d.AssignsInPlace) → agree) ∧
    (∀ (k : Heap) g name, (k.policies g).setScope = .nearest →
      (k.target g name = g ↔ k.binds g name = true ∨ ∀ o ∈ k.chain g, k.binds o name = false)) ∧
    (e.SetFree → h.BodiesIn Expr.SetFree → agree) := by
  intro nearest current agree
  have hagree : (∀ d, nearest.Leads d → d.AssignsInPlace) → agree := by
    intro hplace
    have hcall : Variation.setHere.call nearest =
        ⟨limit, f, e, ⟨h.withSetScope .current, t⟩⟩ := by
      rw [Variation.setHere, Variation.call_ofPolicies]
      simp only [nearest, Heap.withSetScope, Heap.mapPolicies_mapPolicies]
    have hlockstep := Variation.lockstep Variation.setHere_parting nearest
      fun ⟨d, hleads, hd⟩ => hd (hplace d hleads)
    rw [Variation.Agrees, hcall, Variation.setHere, Variation.machine_ofPolicies] at hlockstep
    have hcurrent : current = (nearest.run.1,
        ⟨nearest.run.2.heap.withSetScope .current, nearest.run.2.printed⟩) := hlockstep
    simp only [agree, hcurrent, and_self]
  refine ⟨hagree, fun k g name hscope => Heap.target_eq_self_iff hscope, fun he hh => ?_⟩
  exact hagree fun d hleads => assignsInPlace_of_setFree he (Heap.bodiesIn_mapPolicies hh) hleads

/-- A `set!` in a frame that binds the name itself and lies in one that binds it, too, and a
program without `set!`. -/
theorem setScope_agree_shadowing :
    let frame (outer : Option FrameId) : Frame :=
      { bindings := [("x", .nil)], outer := outer, policies := { setScope := .nearest } }
    let h : Heap := { frames := #[frame none, frame (some 0)] }
    let write : Expr := .list [.assign "x" (.text "b")]
    let copy : Expr := .list [.define "y" (.symbol "x")]
    let nearest (e : Expr) := eval 3 1 e ⟨h.withSetScope .nearest, ""⟩
    let current (e : Expr) := eval 3 1 e ⟨h.withSetScope .current, ""⟩
    h.target 1 "x" = 1 ∧
    (nearest write).2.heap.get? 1 "x" = some (.text "b") ∧
    (current write).2.heap = (nearest write).2.heap.withSetScope .current ∧
    (current copy).2.heap = (nearest copy).2.heap.withSetScope .current := by
  intro frame h write copy nearest current
  have hsame : h.withSetScope .nearest = h := by
    simp [Heap.withSetScope, Heap.mapPolicies, Heap.mapFrames, h, frame]
  have htarget : h.target 1 "x" = 1 :=
    ((setScope_agree 3 1 write h "").2.1 h 1 "x" rfl).mpr (.inl rfl)
  have hwrite : ∀ d, Call.Leads ⟨3, 1, .list [.assign "x" (.text "b")],
      ⟨h.withSetScope .nearest, ""⟩⟩ d → d.AssignsInPlace := by
    rw [hsame]
    intro d hleads l name e rest v m hlimit hexpr heval
    rcases hleads.cases_head with rfl | ⟨c, hmakes, hleads⟩
    · cases hlimit
      cases hexpr
      cases heval
      exact htarget
    · -- the only call made is for the text, and this makes none
      obtain rfl : c = ⟨2, 1, .text "b", ⟨h, ""⟩⟩ := by
        cases hmakes with
        | assign => rfl
        | head hform | argument hform | body hform => cases hform
      rcases hleads.cases_head with rfl | ⟨c, hmakes, -⟩
      · cases hexpr
      · cases hmakes
  have hcopy : (Expr.list [.define "y" (.symbol "x")]).SetFree := by
    refine Expr.lacks_of_parts ?_ (List.forall_mem_singleton.mpr ?_)
    · rintro ⟨name, e, ⟨⟩⟩
    refine Expr.lacks_of_parts ?_ (List.forall_mem_singleton.mpr ?_)
    · rintro ⟨name, e, ⟨⟩⟩
    refine Expr.lacks_of_parts ?_ (List.forall_mem_nil _)
    rintro ⟨name, e, ⟨⟩⟩
  have hbodies : h.BodiesIn Expr.SetFree := by
    intro g frame name v hframe hmem
    rcases g with _ | _ | g
    · cases hframe
      cases List.mem_singleton.mp hmem
      exact Expr.bodiesIn_atom rfl
    · cases hframe
      cases List.mem_singleton.mp hmem
      exact Expr.bodiesIn_atom rfl
    · cases hframe
  have hwritten : (nearest write).2.heap.get? 1 "x" = some (.text "b") := by
    show (eval 3 1 write ⟨h.withSetScope .nearest, ""⟩).2.heap.get? 1 "x" = _
    rw [hsame]
    show (h.define (h.target 1 "x") "x" (.text "b")).get? 1 "x" = _
    rw [htarget]
    rfl
  exact ⟨htarget, hwritten, ((setScope_agree 3 1 write h "").1 hwrite).2.2,
    ((setScope_agree 3 1 copy h "").2.2 hcopy hbodies).2.2⟩

end SetScope

end FrameLisp
