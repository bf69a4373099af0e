/-
FrameLisp/Heap/Bindings.lean

The bindings of one frame: values under distinct names, in the order in which the
names were first bound.  Binding a name again changes its value and keeps its
place.
-/
import FrameLisp.Expr.Basic

namespace FrameLisp

/-- Names with their values, the name bound first in front. -/
abbrev Bindings := List (String × Expr)

namespace Bindings

/-- The value of a name. -/
def get? (name : String) : Bindings → Option Expr
  | [] => none
  | (n, v) :: rest => if n = name then some v else get? name rest

/-- The names, in order. -/
def names (b : Bindings) : List String := b.map Prod.fst

/-- Bind a name, in its old place if it has one and at the end otherwise. -/
def insert (name : String) (value : Expr) : Bindings → Bindings
  | [] => [(name, value)]
  | (n, v) :: rest =>
      if n = name then (n, value) :: rest else (n, v) :: insert name value rest

/-- Bind several names, one after the other. -/
def insertAll (b : Bindings) (pairs : List (String × Expr)) : Bindings :=
  pairs.foldl (fun b p => b.insert p.1 p.2) b

/-! ### Laws -/

@[simp] theorem get?_insert_self (name : String) (value : Expr) (b : Bindings) :
    (b.insert name value).get? name = some value := by
  induction b with
  | nil => simp [insert, get?]
  | cons p rest ih =>
      obtain ⟨n, v⟩ := p
      by_cases h : n = name <;> simp [insert, get?, h, ih]

theorem get?_insert_of_ne {name other : String} (h : other ≠ name) (value : Expr)
    (b : Bindings) : (b.insert name value).get? other = b.get? other := by
  induction b with
  | nil => simp [insert, get?, Ne.symm h]
  | cons p rest ih =>
      obtain ⟨n, v⟩ := p
      by_cases hn : n = name
      · subst hn
        simp [insert, get?, Ne.symm h]
      · simp [insert, get?, hn, ih]

/-- A name already bound keeps its place; a new one comes last. -/
theorem names_insert (name : String) (value : Expr) (b : Bindings) :
    (b.insert name value).names =
      if name ∈ b.names then b.names else b.names ++ [name] := by
  induction b with
  | nil => simp [insert, names]
  | cons p rest ih =>
      obtain ⟨n, v⟩ := p
      by_cases hn : n = name
      · simp [insert, names, hn]
      · have hne : ¬name = n := fun e => hn e.symm
        simp only [names] at ih
        simp only [insert, hn, if_false, names, List.map_cons, List.mem_cons, hne, false_or, ih]
        split <;> simp_all

/-- A name has a value exactly if it is among the names. -/
theorem get?_isSome_iff (name : String) (b : Bindings) :
    (b.get? name).isSome ↔ name ∈ b.names := by
  induction b with
  | nil => simp [get?, names]
  | cons p rest ih =>
      obtain ⟨n, v⟩ := p
      by_cases hn : n = name
      · simp [get?, names, hn]
      · have hne : ¬name = n := fun e => hn e.symm
        simpa [get?, names, hn, hne] using ih

end Bindings

end FrameLisp
