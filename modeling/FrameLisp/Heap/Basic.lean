/-
FrameLisp/Heap/Basic.lean

The heap of frames, in which evaluation keeps every binding.

A frame holds bindings, a link to the frame around it, and two policies that a new
frame takes over from the frame around it: what the value of an unbound name is,
and where `set!` writes.  Frames are numbered in the order in which they are made,
are never given up, and link only to frames made before them; `chain` lists a frame
and the frames around it, innermost first, and everything that depends on the
nesting of frames is said through it.

The heap also counts the closures made, which gives each its identity.
-/
import FrameLisp.Heap.Bindings
import FrameLisp.Fault

namespace FrameLisp

/-! ### Policies -/

/-- What an unbound name evaluates to. -/
inductive UnboundPolicy where
  /-- Nothing. -/
  | givesNil
  /-- Its evaluation is a fault. -/
  | fails
  deriving DecidableEq

/-- How a policy is written. -/
def UnboundPolicy.name : UnboundPolicy → String
  | .givesNil => "nil"
  | .fails => "error"

/-- All policies for unbound names. -/
def UnboundPolicy.all : List UnboundPolicy := [.givesNil, .fails]

/-- Where `set!` writes. -/
inductive SetScope where
  /-- The frame it is executed in. -/
  | current
  /-- The nearest frame that binds the name, or the current one if none does. -/
  | nearest
  deriving DecidableEq

/-- How a scope is written. -/
def SetScope.name : SetScope → String
  | .current => "local"
  | .nearest => "nearest"

/-- All scopes of `set!`. -/
def SetScope.all : List SetScope := [.current, .nearest]

/-- The two policies of a frame. -/
structure Policies where
  unbound : UnboundPolicy := .givesNil
  setScope : SetScope := .current
  deriving DecidableEq

/-! ### Frames -/

/-- A frame. -/
structure Frame where
  bindings : Bindings := []
  outer : Option FrameId := none
  policies : Policies := {}

/-- Whether a frame binds a name. -/
def Frame.binds (f : Frame) (name : String) : Bool := (f.bindings.get? name).isSome

/-- Bind a name in a frame. -/
def Frame.define (f : Frame) (name : String) (value : Expr) : Frame :=
  { f with bindings := f.bindings.insert name value }

/-- All frames, and how many closures were made. -/
structure Heap where
  frames : Array Frame := #[]
  closures : Nat := 0

namespace Heap

/-- The frame with a given number. -/
def frame? (h : Heap) (f : FrameId) : Option Frame := h.frames[f]?

/-- A frame and the frames around it, innermost first. -/
def chain (h : Heap) (f : FrameId) : List FrameId :=
  match h.frame? f with
  | none => []
  | some frame =>
      match frame.outer with
      | none => [f]
      | some o => if o < f then f :: chain h o else [f]
termination_by f

/-- The policies of the frame `f`. -/
def policies (h : Heap) (f : FrameId) : Policies :=
  match h.frame? f with
  | some frame => frame.policies
  | none => {}

/-- Whether the frame `f` itself binds a name. -/
def binds (h : Heap) (f : FrameId) (name : String) : Bool :=
  match h.frame? f with
  | some frame => frame.binds name
  | none => false

/-- The value the frame `f` itself gives to a name. -/
def get? (h : Heap) (f : FrameId) (name : String) : Option Expr :=
  match h.frame? f with
  | some frame => frame.bindings.get? name
  | none => none

/-! ### Names seen from a frame -/

/-- The nearest frame on the chain of `f` that binds a name. -/
def find? (h : Heap) (f : FrameId) (name : String) : Option FrameId :=
  (h.chain f).find? fun g => h.binds g name

/-- The outermost frame on the chain of `f`. -/
def root? (h : Heap) (f : FrameId) : Option FrameId := (h.chain f).getLast?

/-- The value of a name as seen from `f`.  Whether an unbound name is a fault is up
to the policy of `f`. -/
def lookup (h : Heap) (f : FrameId) (name : String) : Except Fault Expr :=
  match (h.find? f name).bind fun g => h.get? g name with
  | some value => .ok value
  | none =>
      match (h.policies f).unbound with
      | .givesNil => .ok .nil
      | .fails => .error (.unbound name)

/-! ### Changes -/

/-- Bind a name in the frame `f`. -/
def define (h : Heap) (f : FrameId) (name : String) (value : Expr) : Heap :=
  { h with frames := h.frames.modify f fun frame => frame.define name value }

/-- Bind several names in the frame `f`, one after the other. -/
def defineAll (h : Heap) (f : FrameId) (pairs : List (String × Expr)) : Heap :=
  pairs.foldl (fun h p => h.define f p.1 p.2) h

/-- The frame that `set!` writes to when it is executed in `f`. -/
def target (h : Heap) (f : FrameId) (name : String) : FrameId :=
  match (h.policies f).setScope with
  | .current => f
  | .nearest => (h.find? f name).getD f

/-- Bind a name as `set!` does. -/
def assign (h : Heap) (f : FrameId) (name : String) (value : Expr) : Heap :=
  h.define (h.target f name) name value

/-- The number the next frame gets. -/
def next (h : Heap) : FrameId := h.frames.size

/-- The number of the frame made last. -/
def newest (h : Heap) : FrameId := h.frames.size - 1

/-- Add a frame. -/
def push (h : Heap) (frame : Frame) : Heap := { h with frames := h.frames.push frame }

/-- Add an empty frame. -/
def newFrame (h : Heap) (outer : Option FrameId) (policies : Policies) : Heap :=
  h.push { outer := outer, policies := policies }

/-- Add the frame of a call: inside the frame a closure captured and with its
policies, with the parameters bound to the arguments in order, so that of a repeated
parameter the last argument counts. -/
def enter (h : Heap) (captured : FrameId) (params : List String) (args : List Expr) : Heap :=
  h.push
    { bindings := Bindings.insertAll [] (params.zip args)
      outer := some captured
      policies := h.policies captured }

/-- Count one more closure. -/
def countClosure (h : Heap) : Heap := { h with closures := h.closures + 1 }

end Heap

end FrameLisp
