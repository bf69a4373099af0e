/-
FrameLisp/Proofs/Heap/Parameters.lean

Parameters and their arguments.

A closure is called in a frame of its own.  The frame is made before the body runs, inside
the frame that the closure captured, and the parameters are bound in it one after the other.
A parameter may occur more than once.  Binding a name again keeps its place, so

    the names are the parameters in the order of their first occurrences, and
    each has the argument that stands at its last occurrence.

All other names are looked up from the captured frame.  `Entered` says this of the heap that
the body starts from, and `closure_application` that there is no other way to call a closure:
the body runs from such a heap, or, if the number of arguments is wrong, nothing happens at
all.  Where the call comes from has no say in it.
-/
import FrameLisp.Proofs.Evaluation.Stops
import FrameLisp.Proofs.Heap.Visibility

namespace FrameLisp

/-- `v` is the argument that stands where `name` occurs last among the parameters. -/
def LastArgument (params : List String) (args : List Expr) (name : String) (v : Expr) : Prop :=
  ∃ i : Nat, params[i]? = some name ∧ args[i]? = some v ∧ ∀ j, i < j → params[j]? ≠ some name

variable {name : String} {params : List String} {args : List Expr}

namespace LastArgument

variable {v w : Expr}

theorem mem (hv : LastArgument params args name v) : name ∈ params := by
  obtain ⟨i, hparam, -⟩ := hv
  exact List.mem_of_getElem? hparam

theorem unique (hv : LastArgument params args name v) (hw : LastArgument params args name w) :
    v = w := by
  obtain ⟨i, hi, hv, hlast⟩ := hv
  obtain ⟨j, hj, hw, hlast'⟩ := hw
  have hij : i ≤ j := Nat.le_of_not_lt fun h => hlast' i h hi
  have hji : j ≤ i := Nat.le_of_not_lt fun h => hlast j h hj
  obtain rfl : i = j := Nat.le_antisymm hij hji
  exact Option.some.inj (hv.symm.trans hw)

end LastArgument

theorem map_fst_zip_args (hlen : args.length = params.length) :
    (params.zip args).map Prod.fst = params :=
  List.map_fst_zip (Nat.le_of_eq hlen.symm)

/-! ### Names bound one after the other -/

namespace Bindings

theorem insertAll_cons (p : String × Expr) (pairs : List (String × Expr)) (b : Bindings) :
    b.insertAll (p :: pairs) = (b.insert p.1 p.2).insertAll pairs := rfl

/-- New names come after those that were there, each in the place where it occurs first. -/
theorem names_insertAll (pairs : List (String × Expr)) (b : Bindings) :
    (b.insertAll pairs).names =
      b.names ++ ((pairs.map Prod.fst).filter fun n => n ∉ b.names).eraseDups := by
  induction pairs generalizing b with
  | nil => simp [insertAll]
  | cons p pairs ih =>
      rw [insertAll_cons, ih, names_insert]
      by_cases hp : p.1 ∈ b.names
      · simp [hp]
      · -- a second occurrence is filtered out on both sides
        simp only [hp, if_false, List.map_cons, not_false_eq_true, decide_true, List.filter_cons,
          if_true, List.eraseDups_cons, List.filter_filter, List.append_assoc, List.cons_append,
          List.nil_append, List.mem_append, List.mem_singleton, not_or]
        congr 3
        refine List.filter_congr fun n _ => ?_
        by_cases hn : n = p.1 <;> simp [hn]

theorem get?_insertAll_of_not_mem {pairs : List (String × Expr)}
    (hname : name ∉ pairs.map Prod.fst) (b : Bindings) :
    (b.insertAll pairs).get? name = b.get? name := by
  induction pairs generalizing b with
  | nil => rfl
  | cons p pairs ih =>
      rw [List.map_cons, List.mem_cons, not_or] at hname
      rw [insertAll_cons, ih hname.2, get?_insert_of_ne hname.1]

/-- Of a name that is bound several times the last value counts. -/
theorem get?_insertAll_zip (hlen : args.length = params.length) (hname : name ∈ params)
    (b : Bindings) :
    ∃ v, LastArgument params args name v ∧ (b.insertAll (params.zip args)).get? name = some v := by
  induction params generalizing args b with
  | nil => cases hname
  | cons p params ih =>
      obtain ⟨a, args, rfl⟩ := List.exists_cons_of_length_eq_add_one hlen
      rw [List.zip_cons_cons, insertAll_cons]
      by_cases hlater : name ∈ params
      · obtain ⟨v, ⟨i, hparam, harg, hlast⟩, hv⟩ :=
          ih (Nat.succ.inj hlen) hlater (b.insert p a)
        refine ⟨v, ⟨i + 1, by simpa using hparam, by simpa using harg, fun j hj => ?_⟩, hv⟩
        obtain ⟨j, rfl⟩ : ∃ k, j = k + 1 := ⟨j - 1, by omega⟩
        simpa using hlast j (by omega)
      · obtain rfl : name = p := (List.mem_cons.mp hname).resolve_right hlater
        refine ⟨a, ⟨0, rfl, rfl, fun j hj hat => ?_⟩, ?_⟩
        · obtain ⟨j, rfl⟩ : ∃ k, j = k + 1 := ⟨j - 1, by omega⟩
          rw [List.getElem?_cons_succ] at hat
          exact hlater (List.mem_of_getElem? hat)
        · have hzip : name ∉ (params.zip args).map Prod.fst := by
            rw [map_fst_zip_args (Nat.succ.inj hlen)]
            exact hlater
          rw [get?_insertAll_of_not_mem hzip, get?_insert_self]

end Bindings

/-! ### The frame of a call -/

namespace Heap

/-- `h'` is `h` with the frame of a call in addition. -/
structure Entered (h : Heap) (captured : FrameId) (params : List String) (args : List Expr)
    (h' : Heap) : Prop where
  next : h'.next = h.next + 1
  others {g} : g < h.next → h'.frame? g = h.frame? g
  closures : h'.closures = h.closures
  frame : ∃ frame, h'.frame? h.next = some frame ∧ frame.outer = some captured ∧
    frame.policies = h.policies captured ∧ frame.bindings.names = params.eraseDups
  parameter {name : String} : name ∈ params →
    ∃ v, LastArgument params args name v ∧ h'.lookup h.next name = .ok v
  otherName {name : String} : name ∉ params → h'.lookup h.next name = h.lookup captured name

variable {h : Heap} {captured g : FrameId}

theorem frame?_enter_new : (h.enter captured params args).frame? h.next =
    some { bindings := Bindings.insertAll [] (params.zip args), outer := some captured,
           policies := h.policies captured } := by
  rw [enter, frame?_push, if_pos rfl]

theorem frame?_enter_of_lt (hg : g < h.next) :
    (h.enter captured params args).frame? g = h.frame? g :=
  frame?_push_of_lt hg

/-- The chain goes on with that of the captured frame, which is empty if there is no such
frame. -/
theorem chain_enter : (h.enter captured params args).chain h.next = h.next :: h.chain captured := by
  rw [chain, frame?_enter_new]
  dsimp only
  by_cases hlt : captured < h.next
  · rw [if_pos hlt, enter, ((Extends.refl h).push _).chain_eq hlt]
  · rw [if_neg hlt, chain_eq_nil (Nat.le_of_not_lt hlt)]

theorem lt_of_mem_chain (hg : g ∈ h.chain captured) : g < h.next := by
  by_cases hlt : captured < h.next
  · exact chain_subset h.closedOutward_lt hlt g hg
  · rw [chain_eq_nil (Nat.le_of_not_lt hlt)] at hg
    cases hg

theorem get?_enter_new : (h.enter captured params args).get? h.next name =
    (Bindings.insertAll [] (params.zip args)).get? name := by
  rw [get?, frame?_enter_new]

theorem get?_enter_of_lt (hg : g < h.next) :
    (h.enter captured params args).get? g name = h.get? g name := by
  rw [get?, get?, frame?_enter_of_lt hg]

theorem find?_enter (hlen : args.length = params.length) (hname : name ∉ params) :
    (h.enter captured params args).find? h.next name = h.find? captured name := by
  have hzip : name ∉ (params.zip args).map Prod.fst := by rwa [map_fst_zip_args hlen]
  have hnew : ¬(h.enter captured params args).binds h.next name = true := by
    rw [← get?_isSome, get?_enter_new, Bindings.get?_insertAll_of_not_mem hzip]
    exact Bool.false_ne_true
  have hbinds : ∀ g ∈ h.chain captured,
      (h.enter captured params args).binds g name = h.binds g name := by
    intro g hg
    rw [← get?_isSome, ← get?_isSome, get?_enter_of_lt (lt_of_mem_chain hg)]
  rw [find?, chain_enter, List.find?_cons_of_neg (by exact hnew), find?, ← List.head?_filter,
    ← List.head?_filter, List.filter_congr hbinds]

theorem lookup_enter (hlen : args.length = params.length) (hname : name ∉ params) :
    (h.enter captured params args).lookup h.next name = h.lookup captured name := by
  have hvalue : ((h.enter captured params args).find? h.next name).bind
      (fun g => (h.enter captured params args).get? g name) =
      (h.find? captured name).bind fun g => h.get? g name := by
    rw [find?_enter hlen hname]
    cases hfind : h.find? captured name with
    | none => rfl
    | some g => exact get?_enter_of_lt (lt_of_mem_chain (mem_chain_of_find? hfind).1)
  have hpolicies : (h.enter captured params args).policies h.next = h.policies captured := by
    rw [policies, frame?_enter_new]
  rw [lookup, lookup, hvalue, hpolicies]

theorem entered_enter (hlen : args.length = params.length) :
    h.Entered captured params args (h.enter captured params args) where
  next := next_enter
  others := frame?_enter_of_lt
  closures := rfl
  frame := by
    refine ⟨_, frame?_enter_new, rfl, rfl, ?_⟩
    have hnew : ∀ n ∈ params, decide (n ∉ Bindings.names []) = true := fun n _ => rfl
    rw [Bindings.names_insertAll, map_fst_zip_args hlen,
      List.filter_eq_self.mpr hnew]
    rfl
  parameter hname := by
    obtain ⟨v, hlast, hv⟩ := Bindings.get?_insertAll_zip hlen hname []
    exact ⟨v, hlast, lookup_of_get? (get?_enter_new.trans hv)⟩
  otherName := lookup_enter hlen

end Heap

theorem EvalM.apply_arity {i captured : Nat} {params : List String} {body : Expr}
    {args : List Expr} (hlen : args.length ≠ params.length)
    (evalBody : FrameId → Expr → EvalM Expr) (m : Machine) :
    EvalM.apply evalBody (.closure i params body captured) args m =
      (.error (.fault (.closureArity (.closure i params body captured) params.length args.length)),
        m) := by
  rw [EvalM.apply, if_neg hlen]
  rfl

theorem EvalM.apply_entered {i captured : Nat} {params : List String} {body : Expr}
    {args : List Expr} (hlen : args.length = params.length)
    (evalBody : FrameId → Expr → EvalM Expr) (m : Machine) :
    EvalM.apply evalBody (.closure i params body captured) args m =
      evalBody m.heap.next body { m with heap := m.heap.enter captured params args } := by
  rw [EvalM.apply, if_pos hlen]
  exact Run.bind_ok (EvalM.enter_apply captured params args m)

/-- **Parameter binding.**  Apply a closure to arguments, with anything at all to evaluate its
body by.  If there are more or fewer arguments than parameters, this is a fault about their
number, the body is not evaluated and the machine is left as it was.  Otherwise the body is
evaluated once, from a heap with exactly one frame more: it is inside the captured frame and
has its policies, its names are the parameters without repetitions in the order of their first
occurrences, each of them has there the argument at its last occurrence, and all other names
are what they are from the captured frame.  This heap depends on the heap at the time of the
call only.  So it is the same whichever frame the closure is called from, and whichever
expressions have given the closure and its arguments. -/
theorem closure_application (i captured : Nat) (params : List String) (body : Expr)
    (args : List Expr) :
    let closure := Expr.closure i params body captured
    (args.length ≠ params.length →
      ∃ cause : Fault, cause.kind = .arity ∧
        (∀ evalBody m, EvalM.apply evalBody closure args m = (.error (.fault cause), m)) ∧
        ∀ limit f head es m m₁ m₂, head.isForm = false → eval limit f head m = (.ok closure, m₁) →
          es.mapM (eval limit f) m₁ = (.ok args, m₂) →
          eval (limit + 1) f (.list (head :: es)) m = (.error (.fault cause), m₂)) ∧
    (args.length = params.length →
      ∀ h : Heap, ∃ h', h.Entered captured params args h' ∧
        (∀ evalBody printed,
          EvalM.apply evalBody closure args ⟨h, printed⟩ = evalBody h.next body ⟨h', printed⟩) ∧
        ∀ limit f head es m m₁ printed, head.isForm = false →
          eval limit f head m = (.ok closure, m₁) →
          es.mapM (eval limit f) m₁ = (.ok args, ⟨h, printed⟩) →
          eval (limit + 1) f (.list (head :: es)) m = eval limit h.next body ⟨h', printed⟩) := by
  intro closure
  refine ⟨fun hlen => ?_, fun hlen h => ?_⟩
  · refine ⟨.closureArity closure params.length args.length, rfl, EvalM.apply_arity hlen, ?_⟩
    intro limit f head es m m₁ m₂ hhead hclosure hargs
    exact (Call.run_application hhead hclosure hargs).trans (EvalM.apply_arity hlen _ m₂)
  · refine ⟨h.enter captured params args, Heap.entered_enter hlen, fun evalBody printed => ?_, ?_⟩
    · exact EvalM.apply_entered hlen evalBody ⟨h, printed⟩
    · intro limit f head es m m₁ printed hhead hclosure hargs
      exact (Call.run_application hhead hclosure hargs).trans (EvalM.apply_entered hlen _ _)

/-- A parameter that occurs twice has the first place and the second argument. -/
theorem closure_application_repeated :
    let h : Heap := { frames := #[{ bindings := [("y", .nil)] }] }
    ∃ h', h.Entered 0 ["x", "y", "x"] [.text "a", .text "b", .text "c"] h' ∧
      h'.lookup 1 "x" = .ok (.text "c") ∧
      ∃ frame, h'.frame? 1 = some frame ∧ frame.bindings.names = ["x", "y"] := by
  intro h
  obtain ⟨h', hentered, -, -⟩ :=
    (closure_application 0 0 ["x", "y", "x"] .nil [.text "a", .text "b", .text "c"]).2 rfl h
  have hx : "x" ∈ ["x", "y", "x"] := by decide
  obtain ⟨v, ⟨j, hparam, harg, hlast⟩, hlookup⟩ := hentered.parameter hx
  obtain rfl : j = 2 := by
    obtain ⟨hlt, -⟩ := List.getElem?_eq_some_iff.mp hparam
    have hlt : j < 3 := hlt
    have hge : ¬j < 2 := fun hj => hlast 2 hj rfl
    omega
  obtain rfl : Expr.text "c" = v := Option.some.inj harg
  obtain ⟨frame, hframe, -, -, hnames⟩ := hentered.frame
  exact ⟨h', hentered, hlookup, frame, hframe, hnames.trans (by decide)⟩

end FrameLisp
