/-
FrameLisp/Proofs/Evaluation/Stops.lean

Where stops come from, and where they go.

A call that has made another one does nothing but go on with its value: the rest of it is
a function of that value (`Makes.exists_rest`).  Nothing is done after a stop, since there
is no value to go on with, and nothing that was printed is taken back.  So

* a stop of a call is the stop of every call that leads to it, with the same machine left
  (`Leads.run_of_stop`), and what a call has printed its maker has printed too;
* every stop has an origin, a call that stops although all calls it made have given values
  (`exists_origin`).

Looking at what such a call can be tells stops apart by their origins (`stop_cases`).  A name is
reported as unbound only where a symbol is looked up (`exists_unbound_origin`), and a run nests
too deep only where its limit is used up (`exists_tooDeep_origin`).

Since stops are passed on and printed text stays, a run and a variation of it that part only
where the run stops for a certain reason are easy to compare: either the variation does the
same, or it prints at least as much (`StopsFirst`).
-/
import FrameLisp.Proofs.Evaluation.Lockstep

namespace FrameLisp

/-- Whether a stop reports a name that no visible frame binds. -/
def Stop.isUnbound : Stop → Bool
  | .fault (.unbound _) => true
  | _ => false

/-- Whether a stop comes neither from the limit nor from looking a name up. -/
def Stop.isOwn : Stop → Bool
  | .tooDeep => false
  | .fault (.unbound _) => false
  | _ => true

theorem Stop.isOwn_of_isAboutArguments {s : Stop} (hs : s.isAboutArguments = true) :
    s.isOwn = true := by
  cases s with
  | fault cause =>
      cases cause with
      | unbound name => cases hs
      | _ => rfl
  | exit => rfl
  | tooDeep => cases hs

namespace Call

variable {c d : Call} {m : Machine} {s : Stop}

/-! ### The rest of a call -/

variable {l : Nat} {f : FrameId} {m₁ m₂ : Machine} {head : Expr} {args : List Expr}

/-- A conditional ends as the branch that was taken does. -/
theorem run_branch {a b c : Expr} {x : Float} (ha : eval l f a m = (.ok (.number x), m₁)) :
    run ⟨l + 1, f, .list (.cond a b c :: args), m⟩ =
      run ⟨l, f, if x != 0.0 then b else c, m₁⟩ := by
  refine (Run.bind_ok ha).trans ?_
  show (if x != 0.0 then eval l f b else eval l f c) m₁ = eval l f (if x != 0.0 then b else c) m₁
  by_cases hx : (x != 0.0) = true
  · simp only [if_pos hx]
  · simp only [if_neg hx]

/-- What is left of an application once head and arguments have values. -/
theorem run_application {p : Expr} {vs : List Expr} (hhead : head.isForm = false)
    (hp : eval l f head m = (.ok p, m₁)) (hvs : args.mapM (eval l f) m₁ = (.ok vs, m₂)) :
    run ⟨l + 1, f, .list (head :: args), m⟩ = EvalM.apply (eval l) p vs m₂ := by
  rw [run, eval_apply hhead, Run.bind_ok hp, Run.bind_ok hvs]

/-- The application of a closure ends as its body does. -/
theorem apply_closure {i captured : Nat} {params : List String} {body : Expr} {vs : List Expr}
    (hlen : vs.length = params.length) :
    EvalM.apply (eval l) (.closure i params body captured) vs m =
      run ⟨l, m.heap.next, body, { m with heap := m.heap.enter captured params vs }⟩ := by
  simp only [EvalM.apply, if_pos hlen]
  rw [Run.bind_ok (EvalM.enter_apply captured params vs m)]
  rfl

/-- What `c` does from a call that it makes on: that call, and then something that depends
on its value. -/
theorem Makes.exists_rest (h : c.Makes d) :
    ∃ k : Expr → EvalM Expr, (∀ v, (k v).Prints) ∧
      c.run = (eval d.limit d.frame d.expr >>= k) d.machine := by
  cases h with
  | @define l f name e rest m =>
      exact ⟨fun v => EvalM.onHeap (fun h => h.define f name v) >>= fun _ => pure .nil,
        fun v => .onHeap _ _, rfl⟩
  | @assign l f name e rest m =>
      exact ⟨fun v => EvalM.onHeap (fun h => h.assign f name v) >>= fun _ => pure .nil,
        fun v => .onHeap _ _, rfl⟩
  | @test l f a b c rest m => exact ⟨_, EvalM.Prints.branch (eval_printed l) f b c, rfl⟩
  | branch ha =>
      refine ⟨pure, .pure, ?_⟩
      rw [bind_pure]
      exact run_branch ha
  | @head l f head args m hhead =>
      refine ⟨fun p => args.mapM (eval l f) >>= EvalM.apply (eval l) p, fun p => ?_, ?_⟩
      · exact (EvalM.Prints.mapM (eval_printed l f) args).bind (.apply (eval_printed l) p)
      · rw [run, eval_apply hhead]
  | @argument l f head args m p m₁ before e after vs m₂ hhead hp hargs hvs =>
      refine ⟨fun v => after.mapM (eval l f) >>= fun ws => EvalM.apply (eval l) p (vs ++ v :: ws),
        fun v => ?_, ?_⟩
      · exact (EvalM.Prints.mapM (eval_printed l f) after).bind fun ws =>
          .apply (eval_printed l) p _
      · rw [run, eval_apply hhead, Run.bind_ok hp, hargs,
          Run.bind_congr_apply (Run.mapM_append_cons hvs e after)]
        simp only [bind_assoc, pure_bind]
  | body hhead hp hvs hlen =>
      refine ⟨pure, .pure, ?_⟩
      rw [bind_pure, run_application hhead hp hvs]
      exact apply_closure hlen

/-- A stop of a call is a stop of the call that made it. -/
theorem Makes.run_of_stop (h : c.Makes d) (hd : d.run = (.error s, m)) : c.run = (.error s, m) := by
  obtain ⟨k, -, hc⟩ := h.exists_rest
  rw [hc]
  exact Run.bind_error hd

/-- What a call has printed when it ends, the call that made it has printed. -/
theorem Makes.printed (h : c.Makes d) :
    ∃ t, c.run.2.printed = d.run.2.printed ++ t := by
  obtain ⟨k, hk, hc⟩ := h.exists_rest
  rcases hd : d.run with ⟨s | v, m⟩
  · refine ⟨"", ?_⟩
    rw [h.run_of_stop hd, String.append_empty]
  · obtain ⟨t, ht⟩ := (hk v).appends m
    have hrest : c.run = k v m := by
      rw [hc]
      exact Run.bind_ok hd
    exact ⟨t, by rw [hrest, ht]⟩

/-- **Nothing catches a stop.** -/
theorem Leads.run_of_stop (h : c.Leads d) (hd : d.run = (.error s, m)) : c.run = (.error s, m) := by
  induction h with
  | refl => exact hd
  | tail _ hmakes ih => exact ih (hmakes.run_of_stop hd)

/-! ### Origins -/

/-- All calls that `c` makes give values. -/
def MakesValues (c : Call) : Prop := ∀ d, c.Makes d → ∃ v m, d.run = (.ok v, m)

/-- **Every stop has an origin**: a call that stops although all calls it made gave
values. -/
theorem exists_origin (hc : c.run = (.error s, m)) :
    ∃ d, c.Leads d ∧ d.MakesValues ∧ d.run = (.error s, m) := by
  induction c using makes_induction with
  | hstep c ih =>
      by_cases hstops : ∃ d s' m', c.Makes d ∧ d.run = (.error s', m')
      · -- some call that it made has stopped, and therefore in the same way
        obtain ⟨d, s', m', hd, hrun⟩ := hstops
        have hsame : (Except.error s', m') = (.error s, m) := (hd.run_of_stop hrun).symm.trans hc
        obtain ⟨o, hleads, ho⟩ := ih d hd (hrun.trans hsame)
        exact ⟨o, hleads.head hd, ho⟩
      · refine ⟨c, .refl, fun d hd => ?_, hc⟩
        rcases hrun : d.run with ⟨s' | v, m'⟩
        · exact absurd ⟨d, s', m', hd, hrun⟩ hstops
        · exact ⟨v, m', rfl⟩

/-- The head and the arguments of a list that is a call have values if all calls it makes
do. -/
theorem MakesValues.application (hvalues : MakesValues ⟨l + 1, f, .list (head :: args), m⟩)
    (hhead : head.isForm = false) :
    ∃ p m₁ vs m₂, eval l f head m = (.ok p, m₁) ∧ args.mapM (eval l f) m₁ = (.ok vs, m₂) := by
  obtain ⟨p, m₁, hp⟩ := hvalues _ (.head hhead)
  have hp : eval l f head m = (.ok p, m₁) := hp
  obtain ⟨vs, m₂, hvs⟩ | ⟨before, e, after, vs, m₂, s, m₃, hargs, hvs, he⟩ :=
    Run.mapM_cases (eval l f) args m₁
  · exact ⟨p, m₁, vs, m₂, hp, hvs⟩
  · -- the first argument that stops is a call that was made
    obtain ⟨v, m', hv⟩ := hvalues _ (.argument hhead hp hargs hvs)
    have hv : eval l f e m₂ = (.ok v, m') := hv
    rw [he] at hv
    cases hv

/-- An application whose parts have values stops on its own account. -/
theorem MakesValues.application_isOwn
    (hvalues : MakesValues ⟨l + 1, f, .list (head :: args), m⟩) (hhead : head.isForm = false)
    (hrun : run ⟨l + 1, f, .list (head :: args), m⟩ = (.error s, m₁)) : s.isOwn = true := by
  obtain ⟨p, m₂, vs, m₃, hp, hvs⟩ := hvalues.application hhead
  have happly := (run_application hhead hp hvs).symm.trans hrun
  cases p with
  | native p =>
      have happly : EvalM.callPrimitive p vs m₃ = (.error s, m₁) := happly
      unfold EvalM.callPrimitive at happly
      rcases hcall : p.call vs with s' | ⟨v, t⟩
      · rw [hcall] at happly
        cases happly
        exact Stop.isOwn_of_isAboutArguments (Primitive.call_stop s hcall)
      · rw [hcall] at happly
        cases happly
  | closure i params body captured =>
      by_cases hlen : vs.length = params.length
      · -- the body is a call that was made, so it has a value
        obtain ⟨v, m', hv⟩ := hvalues _ (.body hhead hp hvs hlen)
        rw [apply_closure hlen, hv] at happly
        cases happly
      · simp only [EvalM.apply, if_neg hlen] at happly
        cases happly
        rfl
  | _ =>
      cases happly
      rfl

/-- A special form whose parts have values stops on its own account. -/
theorem MakesValues.form_isOwn
    (hvalues : MakesValues ⟨l + 1, f, .list (head :: args), m⟩) (hhead : head.isForm = true)
    (hrun : run ⟨l + 1, f, .list (head :: args), m⟩ = (.error s, m₁)) : s.isOwn = true := by
  cases head with
  | nil | number | text | symbol | list | native | closure => cases hhead
  | quote | lambda => cases hrun
  | define name e =>
      obtain ⟨v, m₁, hv⟩ := hvalues _ .define
      cases hrun.symm.trans (Run.bind_ok hv)
  | assign name e =>
      obtain ⟨v, m₁, hv⟩ := hvalues _ .assign
      cases hrun.symm.trans (Run.bind_ok hv)
  | cond a b c =>
      obtain ⟨v, m', hv⟩ := hvalues _ .test
      cases v with
      | number x =>
          obtain ⟨w, m₂, hw⟩ := hvalues _ (.branch hv)
          rw [run_branch hv, hw] at hrun
          cases hrun
      | _ =>
          cases hrun.symm.trans (Run.bind_ok hv)
          rfl

/-- A call whose parts have values stops because the limit is reached, because a symbol is
unbound, or on its own account. -/
theorem MakesValues.stop_cases (hvalues : c.MakesValues) (hrun : c.run = (.error s, m)) :
    (c.limit = 0 ∧ s = .tooDeep) ∨
      (∃ name, c.expr = .symbol name ∧
        (c.machine.heap.lookup c.frame name).mapError Stop.fault = .error s) ∨
      s.isOwn = true := by
  obtain ⟨limit, f, e, m₀⟩ := c
  cases limit with
  | zero =>
      cases hrun
      exact .inl ⟨rfl, rfl⟩
  | succ l =>
      right
      cases e with
      | nil | number | text | quote => cases hrun
      | symbol name =>
          have hlookup := (EvalM.lookup_apply f name m₀).symm.trans hrun
          exact .inl ⟨name, rfl, congrArg Prod.fst hlookup⟩
      | define | assign | lambda | cond | native | closure =>
          rw [run, eval_inert rfl] at hrun
          cases hrun
          exact .inr rfl
      | list items =>
          cases items with
          | nil =>
              cases hrun
              exact .inr rfl
          | cons head args =>
              by_cases hhead : head.isForm = true
              · exact .inr (hvalues.form_isOwn hhead hrun)
              · exact .inr (hvalues.application_isOwn (by simpa using hhead) hrun)

/-- Of calls whose parts have values, only the look-up of a symbol reports a name as
unbound. -/
theorem MakesValues.eq_symbol (hvalues : c.MakesValues) (hrun : c.run = (.error s, m))
    (hs : s.isUnbound = true) :
    ∃ name, c.expr = .symbol name ∧
      (c.machine.heap.lookup c.frame name).mapError Stop.fault = .error s := by
  obtain ⟨-, rfl⟩ | hsymbol | hown := hvalues.stop_cases hrun
  · cases hs
  · exact hsymbol
  · cases s with
    | fault cause =>
        cases cause with
        | unbound name => cases hown
        | _ => cases hs
    | exit | tooDeep => cases hs

/-- Of calls whose parts have values, only one without any limit left nests too deep. -/
theorem MakesValues.limit_eq_zero (hvalues : c.MakesValues) (hrun : c.run = (.error .tooDeep, m)) :
    c.limit = 0 := by
  obtain ⟨hlimit, -⟩ | ⟨name, -, hlookup⟩ | hown := hvalues.stop_cases hrun
  · exact hlimit
  · cases hvalue : c.machine.heap.lookup c.frame name <;> rw [hvalue] at hlookup <;> cases hlookup
  · cases hown

/-- **A name is reported as unbound only where a symbol is looked up.** -/
theorem exists_unbound_origin (hc : c.run = (.error s, m)) (hs : s.isUnbound = true) :
    ∃ d name, c.Leads d ∧ d.expr = .symbol name ∧
      (d.machine.heap.lookup d.frame name).mapError Stop.fault = .error s := by
  obtain ⟨d, hleads, hvalues, hd⟩ := exists_origin hc
  obtain ⟨name, hexpr, hlookup⟩ := hvalues.eq_symbol hd hs
  exact ⟨d, name, hleads, hexpr, hlookup⟩

/-- **Evaluation nests too deep only where the limit is used up.** -/
theorem exists_tooDeep_origin (hc : c.run = (.error .tooDeep, m)) :
    ∃ d, c.Leads d ∧ d.limit = 0 := by
  obtain ⟨d, hleads, hvalues, hd⟩ := exists_origin hc
  exact ⟨d, hleads, hvalues.limit_eq_zero hd⟩

end Call

/-! ### Runs that part at a stop -/

namespace Variation

variable {V : Variation} {S : Stop → Prop} {c d : Call}

/-- The call stops for one of the reasons `S`, and all it has printed until then is printed
by its variation, too. -/
def StopsFirst (V : Variation) (S : Stop → Prop) (c : Call) : Prop :=
  (∃ s, c.run.1 = .error s ∧ S s) ∧
    ∃ rest, (V.call c).run.2.printed = c.run.2.printed ++ rest

theorem StopsFirst.made (hmakes : c.Makes d) (hmakes' : (V.call c).Makes (V.call d))
    (hd : V.StopsFirst S d) : V.StopsFirst S c := by
  obtain ⟨⟨s, hstop, hs⟩, rest, hrest⟩ := hd
  -- the stop is passed on as it is, while the other run may go on and print more
  have hrun : c.run = d.run := by
    have hd : d.run = (.error s, d.run.2) := Prod.ext hstop rfl
    rw [hmakes.run_of_stop hd, ← hd]
  obtain ⟨t, ht⟩ := hmakes'.printed
  refine ⟨⟨s, by rw [hrun, hstop], hs⟩, rest ++ t, ?_⟩
  rw [ht, hrest, hrun, String.append_assoc]

/-- A call that does not stop for such a reason does not part from its variation. -/
theorem Parting.agrees (hP : V.Parting (V.StopsFirst S))
    (hnot : ∀ s, c.run.1 = .error s → ¬S s) : V.Agrees c :=
  lockstep hP c fun ⟨⟨s, hstop, hs⟩, _⟩ => hnot s hstop hs

/-- In any case what the call has printed is the beginning of what its variation prints. -/
theorem Parting.printed (hP : V.Parting (V.StopsFirst S)) (hbefore : V.before = "") (c : Call) :
    ∃ rest, (V.call c).run.2.printed = c.run.2.printed ++ rest := by
  by_cases hparts : V.StopsFirst S c
  · exact hparts.2
  · have hagrees : (V.call c).run = (c.run.1, V.machine c.run.2) := lockstep hP c hparts
    refine ⟨"", ?_⟩
    rw [hagrees, machine, hbefore, String.empty_append, String.append_empty]

end Variation

end FrameLisp
