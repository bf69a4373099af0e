/-
FrameLisp/Shell.lean

The interactive shell: a session fed line by line.

Each line that is not blank is one buffer; its value, or a report of what went
wrong, follows it on a line of its own.  A fault does not end the shell.  It ends at
the line `EOF`, at the end of the input, or when the program exits.  And it breaks off,
without a report, at a value that nests too deep to be written out: what goes wrong while
a line is evaluated is reported, what goes wrong while its value is shown is not.
-/
import FrameLisp.Session

namespace FrameLisp.Shell

/-! ### Texts -/

/-- The greeting. -/
def intro : String := "Hello, this is Klisp 1.0 (`exit` to quit)"

/-- What invites the next line. -/
def prompt : String := "> "

/-- The line that ends the shell. -/
def endLine : String := "EOF"

/-- Whether reports are to be coloured.  Of these variables only the presence counts,
whatever they hold. -/
def isColoured (vars : Variables) : Bool :=
  (vars.lookup "FORCE_COLOR").isSome && (vars.lookup "NO_COLOR").isNone

/-- A report of a failure: what kind it is of, and what it says. -/
def report (coloured : Bool) (kind message : String) : String :=
  let label := "runtime error: "
  (if coloured then "\x1b[1m\x1b[31m" ++ label ++ "\x1b[0m" else label) ++ kind ++ ": " ++ message

/-- The report of a fault. -/
def reportFault (coloured : Bool) (cause : Fault) : String :=
  report coloured cause.kind.name cause.message

/-- The report of a run that nests too deep. -/
def reportTooDeep (coloured : Bool) : String :=
  report coloured "RecursionError" "maximum recursion depth exceeded"

/-- The last words of a shell that breaks off. -/
def brokenOffMessage : String := "RecursionError: maximum recursion depth exceeded"

/-! ### One line -/

/-- How the shell ends. -/
inductive Ending where
  /-- At the line that ends it, or at the end of the input. -/
  | finished
  /-- With a status that the program asked for. -/
  | exited (status : Int)
  /-- At a value that nests too deep to be shown. -/
  | brokenOff
  deriving DecidableEq

/-- What a line does: the session after it, the text shown, the trace, and how the shell
ends if it does not go on. -/
structure Step where
  session : Session
  shown : String
  ending : Option Ending := none
  trace : List TraceEntry := []

/-- Take in a line. -/
def step (coloured : Bool) (s : Session) (line : String) : Step :=
  let source := Text.trim line
  if source = "" then { session := s, shown := "" }
  else if source = endLine then { session := s, shown := "\n", ending := some .finished }
  else
    let reply := s.eval source
    let after (text : String) (ending : Option Ending) : Step :=
      { session := reply.session, shown := reply.printed ++ text, ending := ending,
        trace := reply.trace }
    match reply.outcome with
    | .ok value =>
        match value.render? reply.session.limit with
        | some text => after (text ++ "\n") none
        | none => after "" (some .brokenOff)
    | .error (.fault cause) => after (reportFault coloured cause ++ "\n") none
    | .error .tooDeep => after (reportTooDeep coloured ++ "\n") none
    | .error (.exit status) => after "" (some (.exited status))

/-! ### A whole conversation -/

/-- Everything shown in a conversation, the session at its end, and how it ended. -/
structure Transcript where
  session : Session
  shown : String
  ending : Ending
  trace : List TraceEntry := []

/-- Take in lines after the text `shown` and the trace `trace`.  The end of the input
acts like the line that ends the shell. -/
def converseFrom (coloured : Bool) (s : Session) (shown : String) (trace : List TraceEntry) :
    List String → Transcript
  | [] =>
      let last := step coloured s endLine
      { session := s, shown := shown ++ prompt ++ last.shown, ending := .finished, trace := trace }
  | line :: rest =>
      let this := step coloured s line
      let shown := shown ++ prompt ++ this.shown
      let trace := trace ++ this.trace
      match this.ending with
      | none => converseFrom coloured this.session shown trace rest
      | some ending => { session := this.session, shown := shown, ending := ending, trace := trace }

/-- A conversation over the given lines. -/
def converse (coloured : Bool) (s : Session) (lines : List String) : Transcript :=
  converseFrom coloured s (intro ++ "\n") [] lines

/-- The lines of an input, split at line feeds; the last one may lack its end. -/
def inputLines (input : String) : List String :=
  let parts := input.splitOn "\n"
  if parts.getLast? = some "" then parts.dropLast else parts

end FrameLisp.Shell
