/-
FrameLisp/Heap/Render.lean

Frames as text: the bindings in order between braces, with a sign that there is a
frame around, or the whole chain from the inside out.
-/
import FrameLisp.Heap.Basic

namespace FrameLisp

/-- The bindings of a frame between braces. -/
def Bindings.render (b : Bindings) : String :=
  "\x7b" ++ ", ".intercalate (b.map fun p => p.1 ++ ": " ++ p.2.render) ++ "\x7d"

/-- A frame by itself. -/
def Frame.render (f : Frame) : String :=
  f.bindings.render ++ (if f.outer.isSome then " -> ..." else "")

namespace Heap

/-- The frame `f` by itself. -/
def render (h : Heap) (f : FrameId) : String :=
  match h.frame? f with
  | some frame => frame.render
  | none => ""

/-- The frame `f` with all frames around it. -/
def renderChain (h : Heap) (f : FrameId) : String :=
  let frames := (h.chain f).filterMap h.frame?
  "<Environment chain: " ++ " -> ".intercalate (frames.map fun fr => fr.bindings.render) ++ ">"

end Heap

end FrameLisp
