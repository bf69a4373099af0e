/-
FrameLisp/Main.lean

The program itself: it hands its arguments, its environment and its files to
`FrameLisp.CommandLine` and writes what comes back.  The shell reads its input line
by line, so that an answer is seen before the next line is typed.
-/
import FrameLisp.CommandLine.Run

namespace FrameLisp.CommandLine

/-- The variables that the program looks at. -/
def watched : List String :=
  [unboundVariable, setScopeVariable, limitVariable, "FORCE_COLOR", "NO_COLOR"]

/-- Write the outputs of a result and give the code to end with. -/
def deliver (result : Result) : IO UInt32 := do
  IO.print result.out
  (← IO.getStderr).putStr result.err
  match result.ending with
  | .returned code => return code.toUInt32
  | .exited status => return (status % 256).toNat.toUInt32
  | .unknownLevel name =>
      (← IO.getStderr).putStrLn (unknownLevelMessage name)
      return 1
  | .brokenOff =>
      (← IO.getStderr).putStrLn Shell.brokenOffMessage
      return 1

/-- Read the bytes of a file. -/
def readBytes (path : Path) : IO (Except FileFault (List UInt8)) := do
  try
    return .ok (← IO.FS.readBinFile path.render).toList
  catch
    | .inappropriateType _ code _ =>
        return .error (if code = 20 then .notDirectory else .isDirectory)
    | _ => return .error .missing

/-- Talk to the user until the shell ends. -/
partial def interact (p : Plan) (s : Session) (input : IO.FS.Stream) : IO UInt32 := do
  IO.print Shell.prompt
  (← IO.getStdout).flush
  let line ← input.getLine
  let step := Shell.step p.coloured s (if line.isEmpty then Shell.endLine else line)
  (← IO.getStderr).putStr (traceLines p.threshold step.trace)
  IO.print step.shown
  match step.ending with
  | none => interact p step.session input
  | some .finished => return 0
  | some (.exited status) => return (status % 256).toNat.toUInt32
  | some .brokenOff =>
      (← IO.getStderr).putStrLn Shell.brokenOffMessage
      return 1

end FrameLisp.CommandLine

open FrameLisp FrameLisp.CommandLine in
/-- Run the command line. -/
def main (args : List String) : IO UInt32 := do
  let values ← watched.mapM fun name => return (← IO.getEnv name).map fun value => (name, value)
  match plan args (values.filterMap id) with
  | .error result => deliver result
  | .ok p =>
      match p.file with
      | some path => deliver (runFile p path (← readBytes (Path.ofText path)))
      | none =>
          IO.println Shell.intro
          interact p p.session (← IO.getStdin)
