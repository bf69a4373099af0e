/-
FrameLisp/Proofs/Evaluation/Primitives.lean

What primitives give is built from what they are given.

A primitive hands on one of its arguments or an item of one, or puts such values
together to a list; everything else it gives is an atom.  So no primitive makes a
procedure, takes a special form apart or looks into a closure, and a property that
holds of atoms and of lists exactly if it holds of the items is passed on from the
arguments to the result.

The stops that a primitive comes to are faults about its arguments and requests to exit
(`call_stop`): it looks no name up and calls nothing.
-/
import FrameLisp.Primitive

namespace FrameLisp

/-- Whether an expression is nothing, a number or a text. -/
def Expr.isAtom : Expr → Bool
  | .nil => true
  | .number _ => true
  | .text _ => true
  | _ => false

/-- Whether a stop is a request to exit or a fault about the arguments of a procedure. -/
def Stop.isAboutArguments : Stop → Bool
  | .fault cause => cause.kind == .type || cause.kind == .arity
  | .exit _ => true
  | .tooDeep => false

namespace Primitive

/-- The values that can be built from the given ones without looking into anything but
lists. -/
inductive Built (args : List Expr) : Expr → Prop
  | atom {v} : v.isAtom = true → Built args v
  | argument {v} : v ∈ args → Built args v
  | item {xs x} : Built args (.list xs) → x ∈ xs → Built args x
  | list {xs} : (∀ x ∈ xs, Built args x) → Built args (.list xs)

/-- What holds of atoms, of the arguments, and of a list exactly if it holds of its
items, holds of everything built from them. -/
theorem Built.holds {args : List Expr} {P : Expr → Prop} (hatom : ∀ v, v.isAtom = true → P v)
    (hlist : ∀ xs, P (.list xs) ↔ ∀ x ∈ xs, P x) (hargs : ∀ a ∈ args, P a) {v : Expr}
    (hv : Built args v) : P v := by
  induction hv with
  | atom h => exact hatom _ h
  | argument h => exact hargs _ h
  | item _ hx ih => exact (hlist _).mp ih _ hx
  | list _ ih => exact (hlist _).mpr ih

/-! ### Steps of a primitive -/

theorem bind_ok_iff {α β : Type} {x : Except Stop α} {k : α → Except Stop β} {b : β} :
    (x >>= k) = .ok b ↔ ∃ a, x = .ok a ∧ k a = .ok b := by
  cases x with
  | error s => exact ⟨nofun, nofun⟩
  | ok a => exact ⟨fun h => ⟨a, rfl, h⟩, fun ⟨_, ha, h⟩ => by cases ha; exact h⟩

theorem eq_of_one {p : Primitive} {args : List Expr} {v : Expr} (h : p.one args = .ok v) :
    args = [v] := by
  unfold one at h
  split at h
  · cases h
    rfl
  · cases h

theorem eq_of_two {p : Primitive} {args : List Expr} {v w : Expr}
    (h : p.two args = .ok (v, w)) : args = [v, w] := by
  unfold two at h
  split at h
  · cases h
    rfl
  · cases h

theorem eq_of_items {p : Primitive} {v : Expr} {xs : List Expr} (h : p.items v = .ok xs) :
    v = .list xs := by
  unfold items at h
  split at h
  · cases h
    rfl
  · cases h

variable {p : Primitive} {args : List Expr} {v : Expr} {t : String}

theorem fold_built {op : Float → Float → Float} (h : p.fold op args = .ok (v, t)) :
    Built args v := by
  unfold fold at h
  split at h
  · cases h
  · obtain ⟨_, -, h⟩ := bind_ok_iff.mp h
    obtain ⟨_, -, h⟩ := bind_ok_iff.mp h
    cases h
    exact .atom rfl

theorem binary_built {op : Float → Float → Float} (h : p.binary op args = .ok (v, t)) :
    Built args v := by
  unfold binary at h
  obtain ⟨_, -, h⟩ := bind_ok_iff.mp h
  obtain ⟨_, -, h⟩ := bind_ok_iff.mp h
  obtain ⟨_, -, h⟩ := bind_ok_iff.mp h
  cases h
  exact .atom rfl

theorem unary_built {op : Float → Float} (h : p.unary op args = .ok (v, t)) :
    Built args v := by
  unfold unary at h
  obtain ⟨_, -, h⟩ := bind_ok_iff.mp h
  obtain ⟨_, -, h⟩ := bind_ok_iff.mp h
  cases h
  exact .atom rfl

theorem leave_ne_ok : leave args ≠ .ok (v, t) := by
  intro h
  unfold leave at h
  split at h
  · cases h
  · obtain ⟨_, -, h⟩ := bind_ok_iff.mp h
    split at h <;> cases h

/-! ### The table -/

/-- Every primitive builds its value from its arguments. -/
theorem call_built (h : p.call args = .ok (v, t)) : Built args v := by
  cases p with
  | sequence =>
      cases h
      cases hlast : args.getLast? with
      | none => exact .atom rfl
      | some a => exact .argument (List.mem_of_getLast? hlast)
  | exit => exact absurd h leave_ne_ok
  | add | sub | mul | div => exact fold_built h
  | eq | le | ge | lt | gt | pow => exact binary_built h
  | sin | cos | abs => exact unary_built h
  | stringAppend =>
      cases h
      exact .atom rfl
  | stringLength =>
      obtain ⟨a, -, h⟩ := bind_ok_iff.mp h
      split at h <;> cases h
      exact .atom rfl
  | list =>
      cases h
      exact .list fun a ha => .argument ha
  | car =>
      obtain ⟨a, ha, h⟩ := bind_ok_iff.mp h
      obtain ⟨xs, hxs, h⟩ := bind_ok_iff.mp h
      cases h
      cases eq_of_one ha
      cases eq_of_items hxs
      cases xs with
      | nil => exact .atom rfl
      | cons x xs => exact .item (.argument (List.mem_singleton_self _)) List.mem_cons_self
  | cdr =>
      obtain ⟨a, ha, h⟩ := bind_ok_iff.mp h
      obtain ⟨xs, hxs, h⟩ := bind_ok_iff.mp h
      cases h
      cases eq_of_one ha
      cases eq_of_items hxs
      exact .list fun x hx =>
        .item (.argument (List.mem_singleton_self _)) (List.mem_of_mem_tail hx)
  | cons =>
      obtain ⟨⟨a, b⟩, hab, hlist⟩ := bind_ok_iff.mp h
      cases eq_of_two hab
      split at hlist
      · next heq =>
          cases heq
          cases hlist
          exact .list fun x hx => .argument (List.mem_singleton.mp hx ▸ List.mem_cons_self)
      · next heq =>
          cases heq
          obtain ⟨xs, hxs, hlist⟩ := bind_ok_iff.mp hlist
          cases hlist
          cases eq_of_items hxs
          refine .list fun x hx => ?_
          rcases List.mem_cons.mp hx with rfl | hx
          · exact .argument List.mem_cons_self
          · exact .item (.argument (List.mem_cons_of_mem _ (List.mem_singleton_self _))) hx
  | print =>
      cases h
      exact .atom rfl

/-! ### Stops -/

/-- What stops, stops for a reason that has to do with arguments. -/
def StopsOnArguments {α : Type} (x : Except Stop α) : Prop :=
  ∀ s, x = .error s → s.isAboutArguments = true

theorem StopsOnArguments.ok {α : Type} (a : α) : StopsOnArguments (.ok a) := nofun

theorem StopsOnArguments.error {α : Type} {s : Stop} (hs : s.isAboutArguments = true) :
    StopsOnArguments (.error s : Except Stop α) := by
  intro s' h
  cases h
  exact hs

theorem StopsOnArguments.bind {α β : Type} {x : Except Stop α} {k : α → Except Stop β}
    (hx : StopsOnArguments x) (hk : ∀ a, StopsOnArguments (k a)) : StopsOnArguments (x >>= k) := by
  cases x with
  | ok a => exact hk a
  | error s =>
      intro s' h
      cases h
      exact hx s rfl

theorem number_stops (v : Expr) : StopsOnArguments (p.number v) := by
  unfold number
  split
  · exact .ok _
  · exact .error rfl

theorem items_stops (v : Expr) : StopsOnArguments (p.items v) := by
  unfold items
  split
  · exact .ok _
  · exact .error rfl

theorem one_stops : StopsOnArguments (p.one args) := by
  unfold one
  split
  · exact .ok _
  · exact .error rfl

theorem two_stops : StopsOnArguments (p.two args) := by
  unfold two
  split
  · exact .ok _
  · exact .error rfl

theorem fold_stops {op : Float → Float → Float} : StopsOnArguments (p.fold op args) := by
  have hrest : ∀ (rest : List Expr) (start : Float), StopsOnArguments
      (rest.foldlM (fun acc v => return op acc (← p.number v)) start) := by
    intro rest
    induction rest with
    | nil => exact fun start => .ok start
    | cons v rest ih =>
        intro start
        rw [List.foldlM_cons]
        exact ((number_stops v).bind fun _ => .ok _).bind ih
  unfold fold
  split
  · exact .error rfl
  · exact (number_stops _).bind fun _ => (hrest _ _).bind fun _ => .ok _

theorem binary_stops {op : Float → Float → Float} : StopsOnArguments (p.binary op args) :=
  two_stops.bind fun _ => (number_stops _).bind fun _ => (number_stops _).bind fun _ => .ok _

theorem unary_stops {op : Float → Float} : StopsOnArguments (p.unary op args) :=
  one_stops.bind fun _ => (number_stops _).bind fun _ => .ok _

theorem leave_stops : StopsOnArguments (leave args) := by
  unfold leave
  split
  · exact .error rfl
  · refine (number_stops _).bind fun x => ?_
    split
    · exact .error rfl
    · exact .error rfl

/-- Every primitive that stops does so because of its arguments. -/
theorem call_stop : StopsOnArguments (p.call args) := by
  cases p with
  | sequence | stringAppend | list | print => exact .ok _
  | exit => exact leave_stops
  | add | sub | mul | div => exact fold_stops
  | eq | le | ge | lt | gt | pow => exact binary_stops
  | sin | cos | abs => exact unary_stops
  | stringLength =>
      refine one_stops.bind fun v => ?_
      split
      · exact .ok _
      · exact .error rfl
  | car | cdr => exact one_stops.bind fun _ => (items_stops _).bind fun _ => .ok _
  | cons =>
      refine two_stops.bind fun vw => ?_
      split
      · exact .ok _
      · exact (items_stops _).bind fun _ => .ok _

end Primitive

end FrameLisp
