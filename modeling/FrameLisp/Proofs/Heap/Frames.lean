/-
FrameLisp/Proofs/Heap/Frames.lean

What the operations of the heap do to each single frame.

Every change of the heap is one of three: a name is bound in a frame, where `set!` has
to find the frame first, a frame is added, or a closure is counted.  For the first two
there is an equation for the frame with a given number, the third leaves all frames
alone, and from this follows all that is said later about bindings, links and chains.  Nothing here asks
for a well-formed heap: a chain stops on its own where a link does not lead to an
older frame.
-/
import FrameLisp.Heap.Basic

namespace FrameLisp

/-! ### Bindings -/

namespace Bindings

theorem mem_of_get? {name : String} {v : Expr} {b : Bindings} (h : b.get? name = some v) :
    (name, v) ∈ b := by
  induction b with
  | nil => cases h
  | cons p rest ih =>
      obtain ⟨n, w⟩ := p
      by_cases hn : n = name
      · simp only [get?, hn, if_true, Option.some.injEq] at h
        simp [hn, h]
      · simp only [get?, hn, if_false] at h
        exact List.mem_cons_of_mem _ (ih h)

/-- A binding after an insertion was there before or is the one inserted. -/
theorem mem_insert {p : String × Expr} {name : String} {v : Expr} {b : Bindings}
    (h : p ∈ b.insert name v) : p ∈ b ∨ p = (name, v) := by
  induction b with
  | nil => exact .inr (by simpa [insert] using h)
  | cons q rest ih =>
      obtain ⟨n, w⟩ := q
      by_cases hn : n = name
      · simp only [insert, hn, if_true, List.mem_cons] at h
        rcases h with h | h
        · exact .inr h
        · exact .inl (List.mem_cons_of_mem _ h)
      · simp only [insert, hn, if_false, List.mem_cons] at h
        rcases h with rfl | h
        · exact .inl List.mem_cons_self
        · exact (ih h).imp_left (List.mem_cons_of_mem _)

theorem mem_insertAll {p : String × Expr} {pairs : List (String × Expr)} {b : Bindings}
    (h : p ∈ b.insertAll pairs) : p ∈ b ∨ p ∈ pairs := by
  induction pairs generalizing b with
  | nil => exact .inl h
  | cons q rest ih =>
      rcases ih h with h | h
      · exact (mem_insert h).imp_right fun heq => List.mem_cons.mpr (.inl heq)
      · exact .inr (List.mem_cons_of_mem _ h)

/-- The frame of a call binds nothing but arguments. -/
theorem mem_args_of_mem_insertAll {p : String × Expr} {params : List String} {args : List Expr}
    (h : p ∈ insertAll [] (params.zip args)) : p.2 ∈ args := by
  rcases mem_insertAll h with h | h
  · cases h
  · exact (List.of_mem_zip h).2

theorem nodup_names_insert {b : Bindings} (h : b.names.Nodup) (name : String) (v : Expr) :
    (b.insert name v).names.Nodup := by
  rw [names_insert]
  split
  · exact h
  · next hname =>
      rw [List.nodup_append]
      refine ⟨h, by simp, ?_⟩
      intro x hx y hy heq
      rw [List.mem_singleton.mp hy] at heq
      exact hname (heq ▸ hx)

theorem nodup_names_insertAll {b : Bindings} (h : b.names.Nodup)
    (pairs : List (String × Expr)) : (b.insertAll pairs).names.Nodup := by
  induction pairs generalizing b with
  | nil => exact h
  | cons p rest ih => exact ih (nodup_names_insert h p.1 p.2)

theorem prefix_names_insert (b : Bindings) (name : String) (v : Expr) :
    b.names <+: (b.insert name v).names := by
  rw [names_insert]
  split
  · exact List.prefix_refl _
  · exact List.prefix_append _ _

end Bindings

namespace Heap

variable {h h' : Heap} {f g : FrameId} {name : String} {v : Expr}

/-! ### Numbers of frames -/

theorem lt_next_of_frame? {frame : Frame} (hf : h.frame? f = some frame) : f < h.next := by
  obtain ⟨hlt, -⟩ := Array.getElem?_eq_some_iff.mp hf
  exact hlt

theorem exists_frame?_of_lt (hf : f < h.next) : ∃ frame, h.frame? f = some frame :=
  ⟨h.frames[f], Array.getElem?_eq_getElem hf⟩

theorem frame?_eq_none (hf : h.next ≤ f) : h.frame? f = none :=
  Array.getElem?_eq_none hf

/-! ### One frame after a change -/

@[simp] theorem next_define : (h.define f name v).next = h.next := by
  simp [define, next]

@[simp] theorem next_defineAll {pairs : List (String × Expr)} :
    (h.defineAll f pairs).next = h.next := by
  induction pairs generalizing h with
  | nil => rfl
  | cons p rest ih => exact ih.trans next_define

@[simp] theorem next_assign : (h.assign f name v).next = h.next := next_define

@[simp] theorem next_push (frame : Frame) : (h.push frame).next = h.next + 1 := by
  simp [push, next]

@[simp] theorem next_enter {params : List String} {args : List Expr} :
    (h.enter g params args).next = h.next + 1 := next_push _

@[simp] theorem frame?_define_self :
    (h.define f name v).frame? f = (h.frame? f).map fun frame => frame.define name v := by
  simp [define, frame?, Array.getElem?_modify]

theorem frame?_define_of_ne (hg : g ≠ f) : (h.define f name v).frame? g = h.frame? g := by
  simp [define, frame?, Array.getElem?_modify, Ne.symm hg]

/-- A frame after a binding was the frame with that binding, or is as it was. -/
theorem frame?_define_cases {frame : Frame} (hg : (h.define f name v).frame? g = some frame) :
    (g = f ∧ ∃ old, h.frame? f = some old ∧ frame = old.define name v) ∨
      (g ≠ f ∧ h.frame? g = some frame) := by
  by_cases hgf : g = f
  · subst hgf
    rw [frame?_define_self, Option.map_eq_some_iff] at hg
    obtain ⟨old, hold, rfl⟩ := hg
    exact .inl ⟨rfl, old, hold, rfl⟩
  · rw [frame?_define_of_ne hgf] at hg
    exact .inr ⟨hgf, hg⟩

theorem frame?_push (frame : Frame) :
    (h.push frame).frame? g = if g = h.next then some frame else h.frame? g :=
  Array.getElem?_push

theorem frame?_push_of_lt {frame : Frame} (hg : g < h.next) :
    (h.push frame).frame? g = h.frame? g := by
  rw [frame?_push, if_neg (Nat.ne_of_lt hg)]

/-- A frame after one was added is the one added, or was there. -/
theorem frame?_push_cases {frame old : Frame} (hg : (h.push frame).frame? g = some old) :
    (g = h.next ∧ old = frame) ∨ h.frame? g = some old := by
  rw [frame?_push] at hg
  split at hg
  · next heq => exact .inl ⟨heq, (Option.some.inj hg).symm⟩
  · exact .inr hg

/-! ### What a frame binds -/

theorem binds_eq_true_iff :
    h.binds f name = true ↔ ∃ frame, h.frame? f = some frame ∧ name ∈ frame.bindings.names := by
  unfold binds
  cases hf : h.frame? f with
  | none => simp
  | some frame => simp [Frame.binds, ← Bindings.get?_isSome_iff]

theorem get?_isSome : (h.get? f name).isSome = h.binds f name := by
  unfold get? binds
  cases h.frame? f <;> rfl

/-- A name already bound gets a new value and the names stay as they are. -/
theorem names_define_of_binds {frame : Frame} (hbinds : h.binds f name = true)
    (hf : h.frame? f = some frame) :
    (frame.define name v).bindings.names = frame.bindings.names := by
  obtain ⟨frame', hframe', hname⟩ := binds_eq_true_iff.mp hbinds
  rw [hf] at hframe'
  cases hframe'
  rw [Frame.define, Bindings.names_insert, if_pos hname]

/-! ### Chains -/

/-- A set of frames that is left by no link to an older frame. -/
def ClosedOutward (h : Heap) (S : FrameId → Prop) : Prop :=
  ∀ ⦃g frame o⦄, S g → h.frame? g = some frame → frame.outer = some o → o < g → S o

theorem closedOutward_lt (h : Heap) : h.ClosedOutward fun g => g < h.next := by
  intro g frame o hg _ _ ho
  exact Nat.lt_trans ho hg

/-- A chain starts with the frame itself. -/
theorem exists_chain_eq_cons {frame : Frame} (hframe : h.frame? f = some frame) :
    ∃ outer, h.chain f = f :: outer := by
  rw [chain, hframe]
  dsimp only
  split
  · exact ⟨[], rfl⟩
  · split
    · exact ⟨_, rfl⟩
    · exact ⟨[], rfl⟩

theorem chain_subset {S : FrameId → Prop} (hS : h.ClosedOutward S) (hf : S f) :
    ∀ g ∈ h.chain f, S g := by
  -- a chain goes on only to frames with smaller numbers
  induction f using Nat.strongRecOn with
  | _ f ih =>
      intro g hg
      rw [chain] at hg
      split at hg
      · cases hg
      · next frame hframe =>
          split at hg
          · rwa [List.mem_singleton.mp hg]
          · next o ho =>
              split at hg
              · next hlt =>
                  rcases List.mem_cons.mp hg with rfl | hg
                  · exact hf
                  · exact ih o hlt (hS hf hframe ho hlt) g hg
              · rwa [List.mem_singleton.mp hg]

/-- Chains depend on the links of the frames on them only. -/
theorem chain_congr {S : FrameId → Prop} (hS : h.ClosedOutward S)
    (hlink : ∀ g, S g → (h'.frame? g).map Frame.outer = (h.frame? g).map Frame.outer)
    (hf : S f) : h'.chain f = h.chain f := by
  induction f using Nat.strongRecOn with
  | _ f ih =>
      have hlinkf := hlink f hf
      rw [chain, chain]
      cases hframe : h.frame? f with
      | none =>
          rw [hframe, Option.map_none, Option.map_eq_none_iff] at hlinkf
          rw [hlinkf]
      | some frame =>
          rw [hframe, Option.map_some, Option.map_eq_some_iff] at hlinkf
          obtain ⟨frame', hframe', houter⟩ := hlinkf
          rw [hframe']
          simp only [houter]
          cases ho : frame.outer with
          | none => rfl
          | some o =>
              by_cases hlt : o < f
              · simp only [if_pos hlt, ih o hlt (hS hf hframe ho hlt)]
              · simp only [if_neg hlt]

/-! ### Later heaps -/

/-- `h'` has all frames of `h`, with the same links and policies. -/
def Extends (h h' : Heap) : Prop :=
  ∀ ⦃g frame⦄, h.frame? g = some frame →
    ∃ frame', h'.frame? g = some frame' ∧ frame'.outer = frame.outer ∧
      frame'.policies = frame.policies

namespace Extends

variable {h₀ : Heap}

theorem refl (h : Heap) : h.Extends h := fun _ frame hframe => ⟨frame, hframe, rfl, rfl⟩

theorem trans (h₁ : h₀.Extends h) (h₂ : h.Extends h') : h₀.Extends h' := by
  intro g frame hframe
  obtain ⟨frame₁, hframe₁, houter₁, hpolicies₁⟩ := h₁ hframe
  obtain ⟨frame₂, hframe₂, houter₂, hpolicies₂⟩ := h₂ hframe₁
  exact ⟨frame₂, hframe₂, houter₂.trans houter₁, hpolicies₂.trans hpolicies₁⟩

theorem next_le (hext : h.Extends h') : h.next ≤ h'.next := by
  refine Nat.le_of_not_lt fun hlt => ?_
  obtain ⟨frame, hframe⟩ := exists_frame?_of_lt hlt
  obtain ⟨frame', hframe', -⟩ := hext hframe
  rw [frame?_eq_none (Nat.le_refl _)] at hframe'
  cases hframe'

theorem define (hext : h₀.Extends h) (f : FrameId) (name : String) (v : Expr) :
    h₀.Extends (h.define f name v) := by
  refine hext.trans fun g frame hframe => ?_
  by_cases hgf : g = f
  · subst hgf
    exact ⟨frame.define name v, by rw [frame?_define_self, hframe]; rfl, rfl, rfl⟩
  · exact ⟨frame, by rw [frame?_define_of_ne hgf, hframe], rfl, rfl⟩

theorem countClosure (hext : h₀.Extends h) : h₀.Extends h.countClosure := hext

theorem push (hext : h₀.Extends h) (frame : Frame) : h₀.Extends (h.push frame) := by
  refine hext.trans fun g old hold => ?_
  exact ⟨old, by rw [frame?_push_of_lt (lt_next_of_frame? hold), hold], rfl, rfl⟩

/-- Chains of the frames there were stay the same. -/
theorem chain_eq (hext : h.Extends h') (hf : f < h.next) : h'.chain f = h.chain f := by
  refine chain_congr h.closedOutward_lt (fun g hg => ?_) hf
  obtain ⟨frame, hframe⟩ := exists_frame?_of_lt hg
  obtain ⟨frame', hframe', houter, -⟩ := hext hframe
  rw [hframe, hframe', Option.map_some, Option.map_some, houter]

theorem root?_eq (hext : h.Extends h') (hf : f < h.next) : h'.root? f = h.root? f := by
  rw [root?, root?, hext.chain_eq hf]

end Extends

/-! ### Where names are looked up and written -/

theorem mem_chain_of_find? (hg : h.find? f name = some g) :
    g ∈ h.chain f ∧ h.binds g name = true :=
  ⟨List.mem_of_find?_eq_some hg, by simpa using List.find?_some hg⟩

/-- A name that the frame itself binds has this value there. -/
theorem lookup_of_get? (hv : h.get? f name = some v) : h.lookup f name = .ok v := by
  have hbinds : h.binds f name = true := by rw [← get?_isSome, hv, Option.isSome_some]
  obtain ⟨frame, hframe, -⟩ := binds_eq_true_iff.mp hbinds
  obtain ⟨outer, hchain⟩ := exists_chain_eq_cons hframe
  have hfind : h.find? f name = some f := by simp [find?, hchain, hbinds]
  rw [lookup, hfind, Option.bind_some, hv]

/-- The value of a name is nothing, or is bound to it in a frame on the chain. -/
theorem lookup_cases (hv : h.lookup f name = .ok v) :
    v = .nil ∨ ∃ g ∈ h.chain f, ∃ frame, h.frame? g = some frame ∧ (name, v) ∈ frame.bindings := by
  unfold lookup at hv
  split at hv
  · next w hw =>
      cases hv
      obtain ⟨g, hg, hget⟩ := Option.bind_eq_some_iff.mp hw
      unfold get? at hget
      split at hget
      · next frame hframe =>
          exact .inr ⟨g, (mem_chain_of_find? hg).1, frame, hframe, Bindings.mem_of_get? hget⟩
      · cases hget
  · split at hv
    · cases hv
      exact .inl rfl
    · cases hv

/-- A frame that `set!` can write to from elsewhere: it is on the chain of a frame in
which `set!` writes to the nearest binding. -/
def Exposed (h : Heap) (g : FrameId) : Prop :=
  ∃ c frame, h.frame? c = some frame ∧ frame.policies.setScope = .nearest ∧ g ∈ h.chain c

/-- `set!` writes to the frame it is executed in or to an exposed one that binds the name
already. -/
theorem target_cases (h : Heap) (f : FrameId) (name : String) :
    h.target f name = f ∨
      (h.Exposed (h.target f name) ∧ h.binds (h.target f name) name = true) := by
  unfold target policies
  cases hframe : h.frame? f with
  | none => exact .inl rfl
  | some frame =>
      cases hscope : frame.policies.setScope with
      | current => exact .inl rfl
      | nearest =>
          cases hfind : h.find? f name with
          | none => exact .inl rfl
          | some g =>
              obtain ⟨hmem, hbinds⟩ := mem_chain_of_find? hfind
              exact .inr ⟨⟨f, frame, hframe, hscope, hmem⟩, hbinds⟩

end Heap

end FrameLisp
