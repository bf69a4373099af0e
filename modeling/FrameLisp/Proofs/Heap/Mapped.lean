/-
FrameLisp/Proofs/Heap/Mapped.lean

Heaps changed frame by frame.

`h.mapFrames φ` has in place of each frame its image under `φ`; numbers stay what they are,
and so does the count of closures.  What an operation of the heap gives on the changed heap
is said here in terms of what `φ` does to a single frame: if it keeps links, then chains are
the same; if it keeps the value of a name, then that name is found in the same frame; if it
goes along with a binding, then changing and binding can be exchanged.
-/
import FrameLisp.Proofs.Heap.Frames

namespace FrameLisp

namespace Heap

variable {h h₁ h₂ : Heap} {f : FrameId} {name : String} {v : Expr} {φ ψ : Frame → Frame}

/-- A heap is determined by its frames, one by one, and the count of closures. -/
theorem ext_frame? (hclosures : h₁.closures = h₂.closures)
    (hframe : ∀ f, h₁.frame? f = h₂.frame? f) : h₁ = h₂ := by
  obtain ⟨frames₁, closures₁⟩ := h₁
  obtain ⟨frames₂, closures₂⟩ := h₂
  have hframes : frames₁ = frames₂ := Array.ext_getElem? hframe
  have hclosures : closures₁ = closures₂ := hclosures
  rw [hframes, hclosures]

/-- Change every frame. -/
def mapFrames (φ : Frame → Frame) (h : Heap) : Heap := { h with frames := h.frames.map φ }

@[simp] theorem frame?_mapFrames : (h.mapFrames φ).frame? f = (h.frame? f).map φ := by
  simp [mapFrames, frame?]

@[simp] theorem next_mapFrames : (h.mapFrames φ).next = h.next := by
  simp [mapFrames, next]

@[simp] theorem closures_mapFrames : (h.mapFrames φ).closures = h.closures := rfl

theorem mapFrames_countClosure : h.countClosure.mapFrames φ = (h.mapFrames φ).countClosure := rfl

theorem mapFrames_mapFrames :
    (h.mapFrames φ).mapFrames ψ = h.mapFrames fun frame => ψ (φ frame) := by
  apply ext_frame?
  · rfl
  · intro f
    simp [Function.comp_def]

/-! ### What is seen from a frame -/

theorem chain_mapFrames (houter : ∀ frame, (φ frame).outer = frame.outer) :
    (h.mapFrames φ).chain f = h.chain f := by
  refine chain_congr (S := fun _ => True) (fun _ _ _ _ _ _ _ => trivial) (fun g _ => ?_) trivial
  rw [frame?_mapFrames, Option.map_map]
  exact congrArg (fun outer => (h.frame? g).map outer) (funext houter)

variable (hget : ∀ frame, (φ frame).bindings.get? name = frame.bindings.get? name)

include hget in
theorem get?_mapFrames : (h.mapFrames φ).get? f name = h.get? f name := by
  rw [get?, get?, frame?_mapFrames]
  cases h.frame? f with
  | none => rfl
  | some frame => exact hget frame

include hget in
theorem binds_mapFrames : (h.mapFrames φ).binds f name = h.binds f name := by
  rw [binds, binds, frame?_mapFrames]
  cases h.frame? f with
  | none => rfl
  | some frame => exact congrArg Option.isSome (hget frame)

include hget in
theorem find?_mapFrames (houter : ∀ frame, (φ frame).outer = frame.outer) :
    (h.mapFrames φ).find? f name = h.find? f name := by
  rw [find?, find?, chain_mapFrames houter]
  exact congrArg (fun p => (h.chain f).find? p) (funext fun _ => binds_mapFrames hget)

/-! ### Changes -/

/-- A binding changes one frame only, so it is settled by what becomes of that frame. -/
theorem mapFrames_define_of {h' : Heap} (hclosures : h'.closures = h.closures)
    (hself : h'.frame? f = (h.frame? f).map fun frame => φ (frame.define name v))
    (hother : ∀ g, g ≠ f → h'.frame? g = (h.frame? g).map φ) :
    (h.define f name v).mapFrames φ = h' := by
  apply ext_frame?
  · exact hclosures.symm
  · intro g
    rw [frame?_mapFrames]
    by_cases hg : g = f
    · subst hg
      rw [frame?_define_self, Option.map_map, hself]
      rfl
    · rw [frame?_define_of_ne hg, hother g hg]

/-- A binding that the change of frames goes along with. -/
theorem mapFrames_define
    (hdefine : ∀ frame : Frame, φ (frame.define name v) = (φ frame).define name v) :
    (h.define f name v).mapFrames φ = (h.mapFrames φ).define f name v := by
  apply mapFrames_define_of
  · rfl
  · simp [Function.comp_def, hdefine]
  · intro g hg
    rw [frame?_define_of_ne hg, frame?_mapFrames]

/-- A binding that the change of frames makes invisible. -/
theorem mapFrames_define_eq (hdefine : ∀ frame : Frame, φ (frame.define name v) = φ frame) :
    (h.define f name v).mapFrames φ = h.mapFrames φ := by
  apply mapFrames_define_of
  · rfl
  · simp [hdefine]
  · intro g _
    rw [frame?_mapFrames]

theorem mapFrames_push (frame : Frame) :
    (h.push frame).mapFrames φ = (h.mapFrames φ).push (φ frame) := by
  apply ext_frame?
  · rfl
  · intro g
    simp only [frame?_mapFrames, frame?_push, next_mapFrames]
    split <;> rfl

end Heap

end FrameLisp
