/-
FrameLisp/Proofs/Expr/Bodies.lean

The code that values carry with them.

Data is not evaluated: of all that a value consists of, only the bodies of the closures in
it ever become code.  So the code that turns up in the course of a run comes from the code
it started with and from the bodies of the closures that were bound somewhere.

Let `C` be a class of expressions that has with an expression all its parts.  Then a heap
whose closures have their bodies in `C` is left so by code of `C`, and the calls that are
made in the meantime are calls of code of `C` (`Invariant.ofCode`).  There are two such
classes here: expressions that were read, and expressions without a certain kind of node.

More is known of values if more is known of what code can make, by `quote` and by `lambda`:
`Classes` says when a class of code and a class of values go together, and then code of the
first binds nothing but values of the second (`Invariant.ofClasses`).
-/
import FrameLisp.Proofs.Expr.Captures
import FrameLisp.Proofs.Session.Requests

namespace FrameLisp

namespace Expr

/-- An expression is `d`, or has it as a part, at any depth. -/
inductive Contains : Expr → Expr → Prop
  | self {e} : Contains e e
  | part {e d n} : d ∈ e.parts → Contains d n → Contains e n

/-- A class of expressions that has with an expression all its parts. -/
def ClosedUnderParts (C : Expr → Prop) : Prop := ∀ ⦃e d⦄, C e → d ∈ e.parts → C d

/-- The bodies of the closures that a value holds are in `C`. -/
def BodiesIn (C : Expr → Prop) (v : Expr) : Prop :=
  ∀ ⦃i params body c⦄, v.Holds (.closure i params body c) → C body

variable {C : Expr → Prop} {e d : Expr}

theorem ClosedUnderParts.contains (hC : ClosedUnderParts C) (hd : e.Contains d) (he : C e) :
    C d := by
  induction hd with
  | self => exact he
  | part hpart _ ih => exact ih (hC he hpart)

theorem Holds.contains (h : e.Holds d) : e.Contains d := by
  induction h with
  | self => exact .self
  | item hx _ ih => exact .part hx ih

/-! ### Bodies in values -/

theorem bodiesIn_atom (he : e.isAtom = true) : e.BodiesIn C := by
  intro i params body c hheld
  cases hheld with
  | self => cases he
  | item hx _ => cases he

theorem bodiesIn_list {xs : List Expr} :
    (Expr.list xs).BodiesIn C ↔ ∀ x ∈ xs, x.BodiesIn C := by
  constructor
  · intro h x hx i params body c hheld
    exact h (.item hx hheld)
  · intro h i params body c hheld
    obtain ⟨x, hx, hheld⟩ := holds_closure_list.mp hheld
    exact h x hx hheld

theorem bodiesIn_closure {i c : Nat} {params : List String} {body : Expr} (hbody : C body) :
    (Expr.closure i params body c).BodiesIn C := by
  intro i params body c hheld
  cases hheld
  exact hbody

/-- Code of a class, taken as data, carries only code of the class. -/
theorem ClosedUnderParts.bodiesIn (hC : ClosedUnderParts C) (he : C e) : e.BodiesIn C := by
  intro i params body c hheld
  have hclosure : C (.closure i params body c) := hC.contains hheld.contains he
  exact hC hclosure (List.mem_singleton_self body)

/-! ### Classes of code -/

/-- An expression that can be read. -/
def IsRead (e : Expr) : Prop := ∃ tokens, Derives tokens e

/-- No part of an expression is in `N`, at any depth. -/
def Lacks (N : Expr → Prop) (e : Expr) : Prop := ∀ d, e.Contains d → ¬N d

theorem lacks_of_parts {N : Expr → Prop} (he : ¬N e) (hparts : ∀ d ∈ e.parts, d.Lacks N) :
    e.Lacks N := by
  intro d hd
  cases hd with
  | self => exact he
  | part hpart hd => exact hparts _ hpart d hd

theorem closedUnderParts_lacks (N : Expr → Prop) : ClosedUnderParts (Lacks N) :=
  fun _ _ he hd _ hn => he _ (.part hd hn)

end Expr

theorem DerivesAll.isRead {ts : List Token} {es : List Expr} (h : DerivesAll ts es) :
    ∀ e ∈ es, e.IsRead := by
  induction es generalizing ts with
  | nil => simp
  | cons e es ih =>
      cases h with
      | cons he hes => exact List.forall_mem_cons.mpr ⟨⟨_, he⟩, ih hes⟩

/-- The roots of a request were read. -/
theorem Request.isRead_of_mem_roots {limit : Nat} {r : Request} {e : Expr}
    (he : e ∈ r.roots limit) : e.IsRead := by
  obtain ⟨tokens, -, hderives⟩ := derives_of_mem_roots he
  exact ⟨tokens, hderives⟩

/-- The parts of what can be read can be read. -/
theorem Expr.closedUnderParts_isRead : ClosedUnderParts IsRead := by
  rintro e d ⟨tokens, hderives⟩ hd
  cases hderives with
  | number | text | symbol => cases hd
  | quoteMark he | glued _ he | quote he | define _ he | assign _ he | lambda _ he =>
      rw [List.mem_singleton.mp hd]
      exact ⟨_, he⟩
  | cond ha hb hc =>
      simp only [Expr.parts, List.mem_cons, List.not_mem_nil, or_false] at hd
      rcases hd with rfl | rfl | rfl
      · exact ⟨_, ha⟩
      · exact ⟨_, hb⟩
      · exact ⟨_, hc⟩
  | list hes _ => exact hes.isRead d hd

/-! ### Bound values -/

namespace Heap

section AllBound

variable {P : Expr → Prop} {h : Heap} {f : FrameId} {name : String} {v : Expr}

/-- All bound values are in `P`. -/
def AllBound (P : Expr → Prop) (h : Heap) : Prop :=
  ∀ ⦃g frame name v⦄, h.frame? g = some frame → (name, v) ∈ frame.bindings → P v

theorem AllBound.imp {Q : Expr → Prop} (hPQ : ∀ v, P v → Q v) (hh : h.AllBound P) : h.AllBound Q :=
  fun _ _ _ _ hframe hmem => hPQ _ (hh hframe hmem)

theorem AllBound.empty (P : Expr → Prop) : AllBound P {} := by
  intro g frame name v hframe
  cases hframe

theorem AllBound.define (hh : h.AllBound P) (hv : P v) : (h.define f name v).AllBound P := by
  intro g frame name' w hframe hmem
  obtain ⟨rfl, old, hold, rfl⟩ | ⟨-, hframe⟩ := frame?_define_cases hframe
  · rcases Bindings.mem_insert hmem with hmem | heq
    · exact hh hold hmem
    · cases heq
      exact hv
  · exact hh hframe hmem

theorem AllBound.push (hh : h.AllBound P) {frame : Frame} (hframe : ∀ p ∈ frame.bindings, P p.2) :
    (h.push frame).AllBound P := by
  intro g frame' name' w hframe' hmem
  obtain ⟨-, rfl⟩ | hframe' := frame?_push_cases hframe'
  · exact hframe (name', w) hmem
  · exact hh hframe' hmem

theorem AllBound.enter (hh : h.AllBound P) {captured : FrameId} {params : List String}
    {args : List Expr} (hargs : ∀ a ∈ args, P a) : (h.enter captured params args).AllBound P :=
  hh.push fun p hp => hargs p.2 (Bindings.mem_args_of_mem_insertAll hp)

end AllBound

/-- The closures that are held by bound values have their bodies in `C`. -/
def BodiesIn (C : Expr → Prop) (h : Heap) : Prop :=
  ∀ ⦃g frame name v⦄, h.frame? g = some frame → (name, v) ∈ frame.bindings → v.BodiesIn C

section BodiesIn

variable {C : Expr → Prop} {h : Heap} {f : FrameId} {name : String} {v : Expr}

theorem BodiesIn.define (hh : h.BodiesIn C) (hv : v.BodiesIn C) :
    (h.define f name v).BodiesIn C :=
  AllBound.define hh hv

theorem BodiesIn.push (hh : h.BodiesIn C) {frame : Frame}
    (hframe : ∀ p ∈ frame.bindings, p.2.BodiesIn C) : (h.push frame).BodiesIn C :=
  AllBound.push hh hframe

theorem BodiesIn.enter (hh : h.BodiesIn C) {captured : FrameId} {params : List String}
    {args : List Expr} (hargs : ∀ a ∈ args, a.BodiesIn C) :
    (h.enter captured params args).BodiesIn C :=
  AllBound.enter hh hargs

end BodiesIn

end Heap

/-! ### Runs of code of a class -/

variable {C : Expr → Prop}

/-- Only code of the class runs, and only closures with bodies of the class turn up. -/
def Discipline.ofCode (hC : Expr.ClosedUnderParts C) : Discipline where
  home _ _ := True
  code _ := C
  value _ := Expr.BodiesIn C
  home_mono _ hf := hf
  code_mono _ he := he
  value_mono _ hv := hv
  code_operand he hd := hC he (Expr.mem_parts_of_mem_operands hd)
  value_atom := Expr.bodiesIn_atom
  value_list := Expr.bodiesIn_list
  value_quoted he := hC.bodiesIn (hC he (List.mem_singleton_self _))
  value_closure _ he := Expr.bodiesIn_closure (hC he (List.mem_singleton_self _))
  code_body hv := hv .self

/-- Code of a class leaves heaps whose closures have bodies of the class. -/
def Invariant.ofCode (hC : Expr.ClosedUnderParts C) : Invariant where
  toDiscipline := .ofCode hC
  holds h := h.BodiesIn C
  value_bound hh hframe hmem := hh hframe hmem
  holds_define hh _ hv := hh.define hv
  holds_assign hh _ hv := hh.define hv
  holds_countClosure hh := hh
  holds_enter hh _ hargs := hh.enter hargs
  home_enter _ := trivial

section Classes

variable {code value : Expr → Prop}

/-- A class of code and a class of values that go together: what code of the one makes is a
value of the other, and the bodies of closures that are such values are such code. -/
structure Expr.Classes (code value : Expr → Prop) : Prop where
  code_operand {e d} : code e → d ∈ e.operands → code d
  value_atom {v} : v.isAtom = true → value v
  value_list {xs} : value (.list xs) ↔ ∀ x ∈ xs, value x
  value_quoted {content} : code (.quote content) → value content
  value_closure {i params body c} : code (.lambda params body) → value (.closure i params body c)
  code_body {i params body c} : value (.closure i params body c) → code body

/-- Only code of the class runs, and only values of the class are bound. -/
def Invariant.ofClasses (hclasses : Expr.Classes code value) : Invariant where
  home _ _ := True
  code _ := code
  value _ := value
  home_mono _ hf := hf
  code_mono _ he := he
  value_mono _ hv := hv
  code_operand := hclasses.code_operand
  value_atom := hclasses.value_atom
  value_list := hclasses.value_list
  value_quoted := hclasses.value_quoted
  value_closure _ he := hclasses.value_closure he
  code_body := hclasses.code_body
  holds h := h.AllBound value
  value_bound hh hframe hmem := hh hframe hmem
  holds_define hh _ hv := hh.define hv
  holds_assign hh _ hv := hh.define hv
  holds_countClosure hh := hh
  holds_enter hh _ hargs := hh.enter hargs
  home_enter _ := trivial

/-- Sessions start with primitives and atoms. -/
theorem Invariant.start_ofClasses (hclasses : Expr.Classes code value)
    (hnative : ∀ primitive, value (.native primitive)) (p : Policies) (limit : Nat) :
    (Invariant.ofClasses hclasses).Ready (Session.start p limit) := by
  have hframe : (Heap.newFrame {} none p).AllBound value := (Heap.AllBound.empty value).push nofun
  refine start_ready hframe trivial (fun q hq => ?_) limit
  obtain ⟨primitive, hprimitive⟩ | hatom := standardBindings_cases hq
  · rw [hprimitive]
    exact hnative primitive
  · exact hclasses.value_atom hatom

end Classes

/-- A session whose sources are read has closures with bodies that were read. -/
theorem Session.afterAll_bodiesIn_isRead (p : Policies) (limit : Nat) (rs : List Request) :
    ((Session.start p limit).afterAll rs).heap.BodiesIn Expr.IsRead := by
  have hframe : (Heap.newFrame {} none p).AllBound (Expr.BodiesIn Expr.IsRead) :=
    (Heap.AllBound.empty _).push nofun
  have hstandard : ∀ q ∈ standardBindings, q.2.BodiesIn Expr.IsRead :=
    fun q hq _ _ _ _ hheld => absurd (hheld.captures .closure) (not_captures_standardBindings q hq)
  have hstart : (Invariant.ofCode Expr.closedUnderParts_isRead).Ready (Session.start p limit) :=
    Invariant.start_ready hframe trivial hstandard limit
  have hread : ∀ {tokens e}, Derives tokens e → e.IsRead := fun hderives => ⟨_, hderives⟩
  exact (Invariant.afterAll_ready (fun hderives => hread hderives) hstart rs).1

end FrameLisp
