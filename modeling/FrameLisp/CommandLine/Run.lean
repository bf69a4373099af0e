/-
FrameLisp/CommandLine/Run.lean

The command line from its arguments to its end.

`plan` decides what is to be done before anything is read: it looks at the
arguments, then at the log level, then at the settings.  A file is then run as one
buffer, or the shell is started.  Log lines go to the error output, each only if
its level reaches the chosen one.
-/
import FrameLisp.CommandLine.Arguments
import FrameLisp.CommandLine.Files
import FrameLisp.Shell

namespace FrameLisp.CommandLine

/-! ### Log levels -/

/-- The levels that log lines have here. -/
inductive Level where
  | debug
  | error
  deriving DecidableEq

/-- The rank of a level. -/
def Level.rank : Level → Nat
  | .debug => 10
  | .error => 40

/-- The name of a level in log lines. -/
def Level.name : Level → String
  | .debug => "DEBUG"
  | .error => "ERROR"

/-- The names that can be chosen, with the rank a line has to reach. -/
def thresholds : List (String × Nat) :=
  [("CRITICAL", 50), ("FATAL", 50), ("ERROR", 40), ("WARN", 30), ("WARNING", 30), ("INFO", 20),
   ("DEBUG", 10), ("NOTSET", 0)]

/-- A log line, empty if its level is below the threshold. -/
def logLine (threshold : Nat) (level : Level) (logger message : String) : String :=
  if threshold ≤ level.rank then level.name ++ " " ++ logger ++ ": " ++ message ++ "\n" else ""

/-- The log lines of a trace. -/
def traceLines (threshold : Nat) (trace : List TraceEntry) : String :=
  String.join (trace.map fun entry => logLine threshold .debug "klisp.interpreter" entry.message)

/-! ### Plans and ends -/

/-- How the program ended. -/
inductive Ending where
  /-- With a return code. -/
  | returned (code : Nat)
  /-- With a status asked for. -/
  | exited (status : Int)
  /-- Because no log level has this name. -/
  | unknownLevel (name : String)
  /-- At a value that nests too deep to be shown. -/
  | brokenOff
  deriving DecidableEq

/-- What the program wrote to its two outputs, and how it ended. -/
structure Result where
  out : String := ""
  err : String := ""
  ending : Ending

/-- What is to be done once arguments and settings are in order. -/
structure Plan where
  session : Session
  threshold : Nat
  coloured : Bool
  file : Option String

/-- The wording of an unknown log level. -/
def unknownLevelMessage (name : String) : String := "Unknown level: " ++ Text.quoted name

/-- An end with a complaint under the usage line. -/
def refuse (message : String) : Result := { err := complaint message, ending := .exited 2 }

/-- Decide what is to be done, or end at once. -/
def plan (args : List String) (vars : Variables) : Except Result Plan :=
  match parse args with
  | .error message => .error (refuse message)
  | .ok .help => .error { out := helpText, ending := .exited 0 }
  | .ok (.run options) =>
      let name := Text.toUpper options.logLevel
      match thresholds.lookup name with
      | none => .error { ending := .unknownLevel name }
      | some threshold =>
          match vars.limit?, Policies.resolve vars none none none with
          | .error fault, _ => .error (refuse fault.message)
          | _, .error fault => .error (refuse fault.message)
          | .ok limit, .ok policies =>
              .ok { session := Session.start policies (nestingLimit limit)
                    threshold := threshold
                    coloured := Shell.isColoured vars
                    file := options.file }

/-! ### Carrying out a plan -/

/-- The end of a run that failed, with the report of the failure. -/
def failed (p : Plan) (path : String) (reply : Reply) (log report : String) : Result :=
  { out := reply.printed
    err := log ++ logLine p.threshold .error "klisp" ("failed to run " ++ path) ++ report ++ "\n"
    ending := .returned 1 }

/-- The end of a run whose file cannot be read. -/
def unreadable (p : Plan) (path reason : String) : Result :=
  { err := logLine p.threshold .error "klisp" ("cannot read " ++ path ++ ": " ++ reason)
    ending := .returned 1 }

/-- Run the text of a file. -/
def runText (p : Plan) (path source : String) : Result :=
  let reply := p.session.eval source
  let loading := "loading " ++ path ++ " (" ++ toString source.length ++ " chars)"
  let log := logLine p.threshold .debug "klisp.interpreter" loading ++
    traceLines p.threshold reply.trace
  match reply.outcome with
  | .ok _ => { out := reply.printed, err := log, ending := .returned 0 }
  | .error (.exit status) => { out := reply.printed, err := log, ending := .exited status }
  | .error (.fault cause) => failed p path reply log (Shell.reportFault p.coloured cause)
  | .error .tooDeep => failed p path reply log (Shell.reportTooDeep p.coloured)

/-- Run a file, given what reading it came to. -/
def runFile (p : Plan) (path : String) : Except FileFault (List UInt8) → Result
  | .error fault => unreadable p path (fault.message (Path.ofText path))
  | .ok bytes =>
      match Text.ofBytes bytes with
      | .error e => unreadable p path e.message
      | .ok source => runText p path source

/-- Run the shell on an input. -/
def runShell (p : Plan) (input : String) : Result :=
  let t := Shell.converse p.coloured p.session (Shell.inputLines input)
  { out := t.shown
    err := traceLines p.threshold t.trace
    ending := match t.ending with
      | .finished => .returned 0
      | .exited status => .exited status
      | .brokenOff => .brokenOff }

/-- The whole program, in a directory tree and with an input for the shell. -/
def run (args : List String) (vars : Variables) (tree : Tree) (input : String) : Result :=
  match plan args vars with
  | .error result => result
  | .ok p =>
      match p.file with
      | none => runShell p input
      | some path => runFile p path (tree.read (Path.ofText path))

end FrameLisp.CommandLine
