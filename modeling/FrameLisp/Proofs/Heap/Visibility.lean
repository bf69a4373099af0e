/-
FrameLisp/Proofs/Heap/Visibility.lean

Which frames see a write.

A write binds one name in one frame `o`.  From a frame `g` the name then has the new value
exactly if `o` is in view from `g`: walking outward from `g` leads to `o`, and no frame
passed before binds the name.  From every other frame the name is what it was, whether
`o` is not on the way at all or is shadowed; and so is every other name from every frame.

This is the same for `define`, which writes to the frame it is given, and for `set!`, which
writes to the frame that `WritesTo` says: the nearest frame that binds the name if the
policy is so and there is one, and the frame it is executed in otherwise.

Both sides are said with walks along the links, not with the search itself: a search goes
through the frames of one walk in order, and a write changes what it asks of one of them.
-/
import FrameLisp.Proofs.Heap.WellFormed

namespace FrameLisp

namespace Heap

/-! ### Frames in view -/

/-- The frame `o` is on the way outward from `g`, and no frame nearer to `g` binds the
name. -/
def InView (h : Heap) (g : FrameId) (name : String) (o : FrameId) : Prop :=
  ∃ near far, h.Walk g (near ++ o :: far) ∧ ∀ k ∈ near, h.binds k name = false

/-- Where `set!` writes a name from the frame `f`. -/
inductive WritesTo (h : Heap) (f : FrameId) (name : String) : FrameId → Prop
  | current : (h.policies f).setScope = .current → WritesTo h f name f
  | nearest {o} : (h.policies f).setScope = .nearest → h.InView f name o →
      h.binds o name = true → WritesTo h f name o
  | nowhere {l} : (h.policies f).setScope = .nearest → h.Walk f l →
      (∀ k ∈ l, h.binds k name = false) → WritesTo h f name f

/-- What is seen of `h'`, compared with `h`, after the name got the value `v` in the
frame `o`. -/
structure Rebinds (h : Heap) (o : FrameId) (name : String) (v : Expr) (h' : Heap) : Prop where
  stored : h'.get? o name = some v
  inView {g} : h.InView g name o → h'.lookup g name = .ok v
  elsewhere {g} : ¬ h.InView g name o → h'.lookup g name = h.lookup g name
  otherName {g n} : n ≠ name → h'.lookup g n = h.lookup g n

variable {h h' : Heap} {f g k o : FrameId} {name n : String} {v : Expr}

/-! ### Walks and chains -/

theorem WellFormed.walk_eq (hwf : h.WellFormed) {l : List FrameId} (hw : h.Walk g l) :
    l = h.chain g := by
  induction hw with
  | root hframe ho =>
      rw [chain, hframe]
      dsimp only
      rw [ho]
  | outer hframe ho _ ih =>
      rw [chain, hframe]
      dsimp only
      rw [ho]
      dsimp only
      rw [if_pos (hwf.outer_lt hframe ho), ih]

theorem chain_eq_nil (hg : h.next ≤ g) : h.chain g = [] := by
  rw [chain, frame?_eq_none hg]

theorem WellFormed.inView_iff (hwf : h.WellFormed) :
    h.InView g name o ↔
      ∃ near far, h.chain g = near ++ o :: far ∧ ∀ k ∈ near, h.binds k name = false := by
  constructor
  · rintro ⟨near, far, hw, hnear⟩
    exact ⟨near, far, (hwf.walk_eq hw).symm, hnear⟩
  · rintro ⟨near, far, hchain, hnear⟩
    have hg : g < h.next := by
      refine Nat.lt_of_not_le fun hle => ?_
      rw [chain_eq_nil hle] at hchain
      simp at hchain
    exact ⟨near, far, hchain ▸ hwf.walk hg, hnear⟩

/-! ### A search that is changed at one frame -/

section Search

variable {p q : FrameId → Bool} (hq : ∀ k, k ≠ o → q k = p k)

include hq

theorem find?_eq_changed {near far : List FrameId} (ho : q o = true)
    (hnear : ∀ k ∈ near, p k = false) : (near ++ o :: far).find? q = some o := by
  induction near with
  | nil => exact List.find?_cons_of_pos ho
  | cons k near ih =>
      obtain ⟨hk, hnear⟩ := List.forall_mem_cons.mp hnear
      by_cases hko : k = o
      · rw [hko]
        exact List.find?_cons_of_pos ho
      · have hneg : ¬ q k = true := by rw [hq k hko, hk]; exact Bool.false_ne_true
        rw [List.cons_append, List.find?_cons_of_neg hneg]
        exact ih hnear

theorem find?_eq_unchanged {l : List FrameId}
    (hl : ¬ ∃ near far, l = near ++ o :: far ∧ ∀ k ∈ near, p k = false) :
    l.find? q = l.find? p ∧ ∀ k, l.find? p = some k → k ≠ o := by
  induction l with
  | nil => exact ⟨rfl, fun k hk => by cases hk⟩
  | cons k l ih =>
      have hko : k ≠ o := fun heq => hl ⟨[], l, by rw [heq, List.nil_append], List.forall_mem_nil _⟩
      cases hk : p k with
      | true =>
          -- what is found here is found in both
          rw [List.find?_cons_of_pos hk, List.find?_cons_of_pos (by rw [hq k hko, hk])]
          refine ⟨rfl, fun k' hk' => ?_⟩
          rwa [← Option.some.inj hk']
      | false =>
          have hneg : ¬ p k = true := by rw [hk]; exact Bool.false_ne_true
          rw [List.find?_cons_of_neg hneg, List.find?_cons_of_neg (by rwa [hq k hko])]
          refine ih fun ⟨near, far, heq, hnear⟩ => hl ⟨k :: near, far, ?_, ?_⟩
          · rw [heq, List.cons_append]
          · exact List.forall_mem_cons.mpr ⟨hk, hnear⟩

end Search

/-! ### One write -/

theorem get?_define_self (ho : o < h.next) : (h.define o name v).get? o name = some v := by
  obtain ⟨frame, hframe⟩ := exists_frame?_of_lt ho
  rw [get?, frame?_define_self, hframe]
  exact Bindings.get?_insert_self name v frame.bindings

theorem get?_define_of_ne (hne : k ≠ o) : (h.define o name v).get? k n = h.get? k n := by
  rw [get?, get?, frame?_define_of_ne hne]

theorem get?_define_of_name_ne (hne : n ≠ name) : (h.define o name v).get? k n = h.get? k n := by
  by_cases hk : k = o
  · subst hk
    rw [get?, get?, frame?_define_self]
    cases h.frame? k with
    | none => rfl
    | some frame => exact Bindings.get?_insert_of_ne hne v frame.bindings
  · exact get?_define_of_ne hk

theorem get?_defineAll_of_not_mem {pairs : List (String × Expr)}
    (hname : name ∉ pairs.map Prod.fst) : (h.defineAll o pairs).get? o name = h.get? o name := by
  induction pairs generalizing h with
  | nil => rfl
  | cons p rest ih =>
      rw [List.map_cons, List.mem_cons, not_or] at hname
      exact (ih hname.2).trans (get?_define_of_name_ne hname.1)

/-- Names that are bound one after the other, each of them once, keep their values. -/
theorem get?_defineAll {pairs : List (String × Expr)} (ho : o < h.next)
    (hnodup : (pairs.map Prod.fst).Nodup) (hmem : (name, v) ∈ pairs) :
    (h.defineAll o pairs).get? o name = some v := by
  induction pairs generalizing h with
  | nil => cases hmem
  | cons p rest ih =>
      rw [List.map_cons, List.nodup_cons] at hnodup
      rcases List.mem_cons.mp hmem with rfl | hmem
      · exact (get?_defineAll_of_not_mem hnodup.1).trans (get?_define_self ho)
      · exact ih (by rw [next_define]; exact ho) hnodup.2 hmem

theorem chain_define : (h.define o name v).chain g = h.chain g := by
  by_cases hg : g < h.next
  · exact ((Extends.refl h).define o name v).chain_eq hg
  · have hle : h.next ≤ g := Nat.le_of_not_lt hg
    rw [chain_eq_nil hle, chain_eq_nil (by rwa [next_define])]

theorem policies_define : (h.define o name v).policies g = h.policies g := by
  by_cases hg : g = o
  · subst hg
    rw [policies, policies, frame?_define_self]
    cases h.frame? g <;> rfl
  · rw [policies, policies, frame?_define_of_ne hg]

theorem lookup_define_congr (hfind : (h.define o name v).find? g n = h.find? g n)
    (hget : ∀ k, h.find? g n = some k → (h.define o name v).get? k n = h.get? k n) :
    (h.define o name v).lookup g n = h.lookup g n := by
  have hvalue : ((h.define o name v).find? g n).bind (fun k => (h.define o name v).get? k n) =
      (h.find? g n).bind fun k => h.get? k n := by
    rw [hfind]
    cases hk : h.find? g n with
    | none => rfl
    | some k => exact hget k hk
  rw [lookup, lookup, hvalue, policies_define]

theorem binds_define_of_ne (hne : k ≠ o) : (h.define o name v).binds k n = h.binds k n := by
  rw [← get?_isSome, ← get?_isSome, get?_define_of_ne hne]

/-- A write is seen from where no nearer frame binds the name. -/
theorem lookup_define_of_chain (ho : o < h.next) {near far : List FrameId}
    (hchain : h.chain g = near ++ o :: far) (hnear : ∀ k ∈ near, h.binds k name = false) :
    (h.define o name v).lookup g name = .ok v := by
  have hself : (h.define o name v).binds o name = true := by
    rw [← get?_isSome, get?_define_self ho, Option.isSome_some]
  have hfind : (h.define o name v).find? g name = some o := by
    rw [find?, chain_define, hchain]
    exact find?_eq_changed (fun k hk => binds_define_of_ne hk) hself hnear
  rw [lookup, hfind, Option.bind_some, get?_define_self ho]

theorem WellFormed.rebinds_define (hwf : h.WellFormed) (ho : o < h.next) :
    h.Rebinds o name v (h.define o name v) := by
  refine ⟨get?_define_self ho, ?_, ?_, ?_⟩
  · intro g hview
    obtain ⟨near, far, hchain, hnear⟩ := hwf.inView_iff.mp hview
    exact lookup_define_of_chain ho hchain hnear
  · intro g hview
    rw [hwf.inView_iff] at hview
    obtain ⟨hfind, hne⟩ := find?_eq_unchanged (fun k hk => binds_define_of_ne hk) hview
    refine lookup_define_congr ?_ fun k hk => get?_define_of_ne (hne k hk)
    rw [find?, chain_define]
    exact hfind
  · intro g n hn
    refine lookup_define_congr ?_ fun k _ => get?_define_of_name_ne hn
    have hsame : ∀ k, (h.define o name v).binds k n = h.binds k n := by
      intro k
      rw [← get?_isSome, ← get?_isSome, get?_define_of_name_ne hn]
    rw [find?, find?, chain_define]
    simp only [hsame]

/-! ### Where `set!` writes -/

theorem WellFormed.find?_eq_some_iff (hwf : h.WellFormed) :
    h.find? f name = some o ↔ h.InView f name o ∧ h.binds o name = true := by
  rw [hwf.inView_iff, find?, List.find?_eq_some_iff_append, and_comm]
  simp only [Bool.not_eq_true']

theorem find?_eq_none_iff_binds :
    h.find? f name = none ↔ ∀ k ∈ h.chain f, h.binds k name = false := by
  rw [find?, List.find?_eq_none]
  simp only [Bool.not_eq_true]

theorem WellFormed.writesTo_iff (hwf : h.WellFormed) (hf : f < h.next) :
    h.WritesTo f name o ↔ o = h.target f name := by
  unfold target
  constructor
  · intro ho
    cases ho with
    | current hscope => rw [hscope]
    | nearest hscope hview hbinds =>
        rw [hscope, hwf.find?_eq_some_iff.mpr ⟨hview, hbinds⟩]
        rfl
    | nowhere hscope hw hnone =>
        rw [hwf.walk_eq hw] at hnone
        rw [hscope, find?_eq_none_iff_binds.mpr hnone]
        rfl
  · rintro rfl
    cases hscope : (h.policies f).setScope with
    | current => exact .current hscope
    | nearest =>
        cases hfind : h.find? f name with
        | none => exact .nowhere hscope (hwf.walk hf) (find?_eq_none_iff_binds.mp hfind)
        | some o =>
            obtain ⟨hview, hbinds⟩ := hwf.find?_eq_some_iff.mp hfind
            exact .nearest hscope hview hbinds

theorem target_lt (hf : f < h.next) : h.target f name < h.next := by
  rcases target_cases h f name with heq | ⟨-, hbinds⟩
  · rwa [heq]
  · obtain ⟨frame, hframe, -⟩ := binds_eq_true_iff.mp hbinds
    exact lt_next_of_frame? hframe

/-- What `set!` writes is seen from the frame it is executed in. -/
theorem lookup_assign_self (hf : f < h.next) : (h.assign f name v).lookup f name = .ok v := by
  have hself : (h.define f name v).lookup f name = .ok v := lookup_of_get? (get?_define_self hf)
  have hlt : h.target f name < h.next := target_lt hf
  rw [assign]
  unfold target at hlt ⊢
  cases hscope : (h.policies f).setScope with
  | current => exact hself
  | nearest =>
      rw [hscope] at hlt
      cases hfind : h.find? f name with
      | none => exact hself
      | some o =>
          rw [hfind] at hlt
          obtain ⟨-, near, far, hchain, hnear⟩ := List.find?_eq_some_iff_append.mp hfind
          exact lookup_define_of_chain hlt hchain (by simpa using hnear)

end Heap

/-- **Exact visibility of a write.**  There is one frame that `set!` writes to, and both
`set!` and `define` are seen from exactly the frames that have the frame written in view. -/
theorem write_visibility {h : Heap} {f : FrameId} (hwf : h.WellFormed) (hf : f < h.next)
    (name : String) (v : Expr) :
    (∃ o, (∀ o', h.WritesTo f name o' ↔ o' = o) ∧ h.Rebinds o name v (h.assign f name v)) ∧
      h.Rebinds f name v (h.define f name v) := by
  refine ⟨⟨h.target f name, fun o' => hwf.writesTo_iff hf, ?_⟩, hwf.rebinds_define hf⟩
  exact hwf.rebinds_define (Heap.target_lt hf)

/-- A write to the outermost frame is seen from the frame it was made in, and not from
behind a frame that binds the name itself. -/
theorem write_visibility_shadowed :
    let h : Heap :=
      { frames := #[{ bindings := [("x", .nil)] },
          { outer := some 0, policies := { setScope := .nearest } },
          { bindings := [("x", .nil)], outer := some 0 }, { outer := some 2 }] }
    let h' := h.assign 1 "x" (.text "new")
    h.WellFormed ∧ 1 < h.next ∧ h'.lookup 1 "x" = .ok (.text "new") ∧
      h'.lookup 3 "x" = h.lookup 3 "x" := by
  intro h h'
  have hwf : h.WellFormed := by
    constructor
    · intro g frame o hframe ho
      match g with
      | 0 =>
          cases hframe
          cases ho
      | 1 | 2 | 3 =>
          cases hframe
          cases ho
          decide
      | g + 4 => cases hframe
    · intro g frame hframe
      match g with
      | 0 | 1 | 2 | 3 =>
          cases hframe
          decide
      | g + 4 => cases hframe
    · intro g frame name v c hframe hmem hc
      match g with
      | 0 | 2 =>
          cases hframe
          cases List.mem_singleton.mp hmem
          exact absurd hc (Expr.not_captures_of_parts rfl (by simp [Expr.parts]))
      | 1 | 3 =>
          cases hframe
          cases hmem
      | g + 4 => cases hframe
  have hview : h.InView 1 "x" 0 := by
    refine ⟨[1], [], .outer rfl rfl (.root rfl rfl), List.forall_mem_singleton.mpr ?_⟩
    decide
  have hhidden : ¬ h.InView 3 "x" 0 := by
    rintro ⟨near, far, hw, hnear⟩
    have hpath : h.Walk 3 [3, 2, 0] := .outer rfl rfl (.outer rfl rfl (.root rfl rfl))
    have heq : near ++ 0 :: far = [3, 2, 0] := (hwf.walk_eq hw).trans (hwf.walk_eq hpath).symm
    -- the way passes two frames before it comes to the outermost one
    match near with
    | [] => simp at heq
    | [_] => simp at heq
    | _ :: k :: _ =>
        obtain rfl : k = 2 := by
          simp only [List.cons_append, List.cons.injEq] at heq
          exact heq.2.1
        exact absurd (hnear 2 (by simp)) (by decide)
  have hlt : 1 < h.next := by decide
  obtain ⟨⟨o, hwrites, hseen⟩, -⟩ := write_visibility hwf hlt "x" (.text "new")
  obtain rfl : 0 = o := (hwrites 0).mp (.nearest rfl hview (by decide))
  exact ⟨hwf, hlt, hseen.inView hview, hseen.elsewhere hhidden⟩

end FrameLisp
