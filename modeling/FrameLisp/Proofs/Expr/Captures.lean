/-
FrameLisp/Proofs/Expr/Captures.lean

The frames that an expression refers to.

Frames are referred to by closures only, and a closure can sit deep inside a value.
`Captures` counts every closure that occurs in an expression; this is what matters
for expressions that are evaluated, since evaluation may reach all of their parts.
`Carries` counts those that can be got out of a value by taking lists apart: special
forms that occur in a value are data, which nothing looks into.

No program text denotes a closure, so an expression that was read refers to no
frame, and neither does the body of a closure that was made by evaluating one.
-/
import FrameLisp.Proofs.Evaluation.Coupling
import FrameLisp.Proofs.Reading.Acceptance

namespace FrameLisp

namespace Expr

/-- The parts an expression is made of. -/
def parts : Expr → List Expr
  | .list items => items
  | .define _ e => [e]
  | .assign _ e => [e]
  | .lambda _ body => [body]
  | .cond a b c => [a, b, c]
  | .quote e => [e]
  | .closure _ _ body _ => [body]
  | _ => []

/-- A closure that captured the frame `g` occurs in an expression, at any depth. -/
inductive Captures : Expr → FrameId → Prop
  | closure {i params body g} : Captures (.closure i params body g) g
  | part {e d g} : d ∈ e.parts → Captures d g → Captures e g

/-- A value is `w`, or has it as an item, at any depth inside lists. -/
inductive Holds : Expr → Expr → Prop
  | self {w} : Holds w w
  | item {xs x w} : x ∈ xs → Holds x w → Holds (.list xs) w

/-- A value holds a closure that captured the frame `g`. -/
def Carries (v : Expr) (g : FrameId) : Prop :=
  ∃ i params body, v.Holds (.closure i params body g)

/-- The bodies of the closures that a value holds refer to frames of `S` only. -/
def CodeWithin (S : FrameId → Prop) (v : Expr) : Prop :=
  ∀ ⦃i params body c⦄, v.Holds (.closure i params body c) → ∀ g, body.Captures g → S g

/-- The closures that a value holds captured frames of `S`, and their bodies refer to frames
of `T` only. -/
structure Within (S T : FrameId → Prop) (v : Expr) : Prop where
  captured {g} : v.Carries g → S g
  code : v.CodeWithin T

variable {e : Expr} {g : FrameId}

theorem captures_iff (he : e.isProcedure = false) :
    e.Captures g ↔ ∃ d ∈ e.parts, d.Captures g := by
  constructor
  · intro h
    cases h with
    | closure => cases he
    | part hd h => exact ⟨_, hd, h⟩
  · rintro ⟨d, hd, h⟩
    exact .part hd h

theorem not_captures_of_parts (he : e.isProcedure = false)
    (hparts : ∀ d ∈ e.parts, ¬d.Captures g) : ¬e.Captures g := by
  rw [captures_iff he]
  rintro ⟨d, hd, h⟩
  exact hparts d hd h

theorem not_captures_atom (he : e.isAtom = true) : ¬e.Captures g := by
  cases e with
  | nil | number | text => exact not_captures_of_parts rfl (by simp [parts])
  | _ => cases he

theorem mem_parts_of_mem_operands {d : Expr} (hd : d ∈ e.operands) : d ∈ e.parts := by
  cases e with
  | list | define | assign | cond => exact hd
  | _ => cases hd

theorem Holds.captures {w : Expr} (h : e.Holds w) (hw : w.Captures g) : e.Captures g := by
  induction h with
  | self => exact hw
  | item hx _ ih => exact .part hx (ih hw)

theorem Carries.captures (h : e.Carries g) : e.Captures g := by
  obtain ⟨i, params, body, h⟩ := h
  exact h.captures .closure

theorem Holds.captures_body {i c : Nat} {params : List String} {body : Expr}
    (h : e.Holds (.closure i params body c)) (hg : body.Captures g) : e.Captures g :=
  h.captures (.part (List.mem_singleton_self _) hg)

/-- A value that refers to no frame leads to none. -/
theorem Within.of_not_captures {S T : FrameId → Prop} (he : ∀ g, ¬e.Captures g) :
    e.Within S T where
  captured hg := absurd hg.captures (he _)
  code _ _ _ _ hc := absurd (hc.captures .closure) (he _)

theorem Within.of_atom {S T : FrameId → Prop} (he : e.isAtom = true) : e.Within S T :=
  .of_not_captures fun _ => not_captures_atom he

theorem holds_closure_list {xs : List Expr} {i c : Nat} {params : List String} {body : Expr} :
    (Expr.list xs).Holds (.closure i params body c) ↔
      ∃ x ∈ xs, x.Holds (.closure i params body c) := by
  constructor
  · intro h
    cases h with
    | item hx h => exact ⟨_, hx, h⟩
  · rintro ⟨x, hx, h⟩
    exact .item hx h

theorem within_closure {S T : FrameId → Prop} {i c : Nat} {params : List String} {body : Expr}
    (hc : S c) (hbody : ∀ g, body.Captures g → T g) :
    (Expr.closure i params body c).Within S T := by
  constructor
  · rintro g ⟨i, params, body, hg⟩
    cases hg
    exact hc
  · intro i params body c hheld
    cases hheld
    exact hbody

theorem within_list {S T : FrameId → Prop} {xs : List Expr} :
    (Expr.list xs).Within S T ↔ ∀ x ∈ xs, x.Within S T := by
  constructor
  · intro h x hx
    exact ⟨fun ⟨i, params, body, hg⟩ => h.captured ⟨i, params, body, .item hx hg⟩,
      fun _ _ _ _ hc => h.code (.item hx hc)⟩
  · intro h
    constructor
    · rintro g ⟨i, params, body, hg⟩
      obtain ⟨x, hx, hg⟩ := holds_closure_list.mp hg
      exact (h x hx).captured ⟨i, params, body, hg⟩
    · intro i params body c hc
      obtain ⟨x, hx, hc⟩ := holds_closure_list.mp hc
      exact (h x hx).code hc

end Expr

/-! ### What was read refers to no frame -/

mutual

theorem Derives.not_captures {ts : List Token} {e : Expr} {g : FrameId} :
    Derives ts e → ¬e.Captures g
  | .number _ => Expr.not_captures_atom rfl
  | .text => Expr.not_captures_atom rfl
  | .symbol _ => Expr.not_captures_of_parts rfl nofun
  | .quoteMark he | .glued _ he | .quote he | .define _ he | .assign _ he | .lambda _ he => by
      have hpart := he.not_captures (g := g)
      exact Expr.not_captures_of_parts rfl (by simp [Expr.parts, hpart])
  | .cond ha hb hc => by
      have ha := ha.not_captures (g := g)
      have hb := hb.not_captures (g := g)
      have hc := hc.not_captures (g := g)
      exact Expr.not_captures_of_parts rfl (by simp [Expr.parts, ha, hb, hc])
  | .list hes _ => Expr.not_captures_of_parts rfl hes.not_captures

theorem DerivesAll.not_captures {ts : List Token} {es : List Expr} {g : FrameId} :
    DerivesAll ts es → ∀ e ∈ es, ¬e.Captures g
  | .nil => nofun
  | .cons he hes => List.forall_mem_cons.mpr ⟨he.not_captures, hes.not_captures⟩

end

theorem not_captures_of_readOne {limit : Nat} {source : String} {e : Expr} {g : FrameId}
    (hread : readOne limit source = .ok e) : ¬e.Captures g := by
  by_cases hblank : tokenize source = []
  · rw [readOne_blank hblank] at hread
    cases hread
    exact Expr.not_captures_atom rfl
  · obtain ⟨c, -, hderives, -⟩ := readExpr_sound ((readOne_ok_iff hblank e).mp hread)
    exact hderives.not_captures

/-- The standard values are primitives and atoms. -/
theorem standardBindings_cases {p : String × Expr} (hp : p ∈ standardBindings) :
    (∃ primitive, p.2 = .native primitive) ∨ p.2.isAtom = true := by
  rw [standardBindings, List.mem_append] at hp
  rcases hp with hp | hp
  · obtain ⟨primitive, -, rfl⟩ := List.mem_map.mp hp
    exact .inl ⟨primitive, rfl⟩
  · simp only [constants, List.mem_cons, List.not_mem_nil, or_false] at hp
    rcases hp with rfl | rfl | rfl <;> exact .inr rfl

/-- The standard values refer to no frame. -/
theorem not_captures_standardBindings {g : FrameId} :
    ∀ p ∈ standardBindings, ¬p.2.Captures g := by
  intro p hp hg
  obtain ⟨primitive, hnative⟩ | hatom := standardBindings_cases hp
  · rw [hnative] at hg
    cases hg with
    | part hd => cases hd
  · exact Expr.not_captures_atom hatom hg

/-! ### Disciplines on the frames referred to -/

/-- Code runs only in frames that there are, and refers to no others. -/
def Discipline.existing : Discipline where
  home n f := f < n
  code n e := ∀ g, e.Captures g → g < n
  value n v := ∀ g, v.Captures g → g < n
  home_mono hle hf := Nat.lt_of_lt_of_le hf hle
  code_mono hle he g hg := Nat.lt_of_lt_of_le (he g hg) hle
  value_mono hle hv g hg := Nat.lt_of_lt_of_le (hv g hg) hle
  code_operand he hd g hg := he g (.part (Expr.mem_parts_of_mem_operands hd) hg)
  value_atom hv g hg := absurd hg (Expr.not_captures_atom hv)
  value_list := by
    intro n xs
    simp only [Expr.captures_iff (e := .list xs) rfl]
    exact ⟨fun h x hx g hg => h g ⟨x, hx, hg⟩, fun h g ⟨x, hx, hg⟩ => h x hx g hg⟩
  value_quoted he g hg := he g (.part (List.mem_singleton_self _) hg)
  value_closure hf he g hg := by
    cases hg with
    | closure => exact hf
    | part hd hg => exact he g (.part hd hg)
  code_body hv g hg := hv g (.part (List.mem_singleton_self _) hg)

/-- Code runs only in frames of `S`, and refers by itself to frames of `T` only. -/
def Discipline.within (S T : FrameId → Prop) (hTS : ∀ g, T g → S g) : Discipline where
  home _ f := S f
  code _ e := ∀ g, e.Captures g → T g
  value _ v := v.Within S T
  home_mono _ hf := hf
  code_mono _ he := he
  value_mono _ hv := hv
  code_operand he hd g hg := he g (.part (Expr.mem_parts_of_mem_operands hd) hg)
  value_atom hv := .of_atom hv
  value_list := Expr.within_list
  value_quoted he :=
    ⟨fun hg => hTS _ (he _ (.part (List.mem_singleton_self _) hg.captures)),
     fun _ _ _ _ hc g hg => he g (.part (List.mem_singleton_self _) (hc.captures_body hg))⟩
  value_closure hf he :=
    Expr.within_closure hf fun g hg => he g (.part (List.mem_singleton_self _) hg)
  code_body hv g hg := hv.code .self g hg

end FrameLisp
