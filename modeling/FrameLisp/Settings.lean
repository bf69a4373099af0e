/-
FrameLisp/Settings.lean

Settings: the two policies of a session and the limit on its nesting.

Settings come from environment variables or are given outright.  A variable that is
missing or blank leaves the default.  A choice read from a variable may have blanks
around it and letters of either case; a choice given outright is taken as it
stands.
-/
import FrameLisp.Heap.Basic
import FrameLisp.Number.Integer
import FrameLisp.Text.LetterCase

namespace FrameLisp

/-! ### Faults -/

/-- What is wrong with a setting. -/
inductive SettingFault where
  /-- Not one of the choices for `what`. -/
  | notAChoice (what : String) (choices : List String) (got : String)
  /-- A limit that is not written as a whole number. -/
  | limitNotInteger (got : String)
  /-- A limit below one. -/
  | limitNotPositive (got : Int)
  deriving DecidableEq

/-- The variable that holds the policy for unbound names. -/
def unboundVariable : String := "KLISP_UNBOUND"

/-- The variable that holds the scope of `set!`. -/
def setScopeVariable : String := "KLISP_SET_SCOPE"

/-- The variable that holds the limit on nesting. -/
def limitVariable : String := "KLISP_RECURSION_LIMIT"

/-- The wording of a fault. -/
def SettingFault.message : SettingFault → String
  | .notAChoice what choices got =>
      what ++ " must be one of " ++ ", ".intercalate choices ++ ", got " ++ Text.quoted got
  | .limitNotInteger got => limitVariable ++ " must be an integer, got " ++ Text.quoted got
  | .limitNotPositive got => limitVariable ++ " must be positive, got " ++ toString got

/-- The kind that faults of settings are reported under. -/
def SettingFault.kindName : String := "KlispConfigError"

/-! ### Variables -/

/-- Environment variables with their values. -/
abbrev Variables := List (String × String)

/-- The value of a variable that is neither missing nor blank. -/
def Variables.value? (vars : Variables) (name : String) : Option String :=
  (vars.lookup name).filter fun raw => Text.trim raw ≠ ""

/-! ### Policies -/

/-- Pick a choice by its name. -/
def choose {α : Type} (what : String) (choices : List α) (nameOf : α → String) (got : String) :
    Except SettingFault α :=
  match choices.find? fun a => nameOf a == got with
  | some a => .ok a
  | none => .error (.notAChoice what (choices.map nameOf) got)

/-- The choice a variable holds, or the default. -/
def Variables.choice {α : Type} (vars : Variables) (name : String) (default : α)
    (choices : List α) (nameOf : α → String) : Except SettingFault α :=
  match vars.value? name with
  | none => .ok default
  | some raw => choose name choices nameOf (Text.toLower (Text.trim raw))

/-- The policy for unbound names that the variables ask for. -/
def Variables.unbound (vars : Variables) : Except SettingFault UnboundPolicy :=
  vars.choice unboundVariable .givesNil UnboundPolicy.all UnboundPolicy.name

/-- The scope of `set!` that the variables ask for. -/
def Variables.setScope (vars : Variables) : Except SettingFault SetScope :=
  vars.choice setScopeVariable .current SetScope.all SetScope.name

/-- The policies of a new frame: each as it is given outright, else as in the frame
around it, else, for a frame inside no other, as the variables ask. -/
def Policies.resolve (vars : Variables) (around : Option Policies)
    (unbound setScope : Option String) : Except SettingFault Policies := do
  let u ←
    match unbound, around with
    | some got, _ => choose "unbound policy" UnboundPolicy.all UnboundPolicy.name got
    | none, some p => pure p.unbound
    | none, none => vars.unbound
  let s ←
    match setScope, around with
    | some got, _ => choose "set! scope" SetScope.all SetScope.name got
    | none, some p => pure p.setScope
    | none, none => vars.setScope
  return ⟨u, s⟩

/-! ### The limit on nesting -/

/-- The limit that the variables ask for, if any. -/
def Variables.limit? (vars : Variables) : Except SettingFault (Option Nat) :=
  match vars.value? limitVariable with
  | none => .ok none
  | some raw =>
      match Number.integer? raw with
      | none => .error (.limitNotInteger raw)
      | some n => if n ≤ 0 then .error (.limitNotPositive n) else .ok (some n.toNat)

/-- The deepest nesting that is ever allowed, for reading and for evaluation. -/
def maxNesting : Nat := 2000

/-- The nesting allowed when `asked` is asked for: a limit can be lowered only. -/
def nestingLimit (asked : Option Nat) : Nat := min (asked.getD maxNesting) maxNesting

end FrameLisp
