/-
FrameLisp/CommandLine/Files.lean

Paths, and reading a file from a directory tree.

A path is taken apart at the slashes; empty parts and single dots say nothing and
are dropped, double dots are kept, since what they mean depends on the directories
in front of them.
-/
import FrameLisp.Text.Quoted

namespace FrameLisp.CommandLine

/-! ### Paths -/

/-- A path: the slashes it starts with, and its parts. -/
structure Path where
  root : String
  parts : List String
  deriving DecidableEq

/-- Take a path apart.  One slash in front makes it absolute, and so do three or
more; exactly two are kept as they are. -/
def Path.ofText (text : String) : Path :=
  let slashes := (text.toList.takeWhile (· = '/')).length
  { root := if slashes = 0 then "" else if slashes = 2 then "//" else "/"
    parts := (text.splitOn "/").filter fun part => part ≠ "" ∧ part ≠ "." }

/-- A path as text, a dot if there is nothing else to say. -/
def Path.render (p : Path) : String :=
  let text := p.root ++ "/".intercalate p.parts
  if text = "" then "." else text

/-! ### Reading -/

/-- Why a file cannot be read. -/
inductive FileFault where
  | missing
  | notDirectory
  | isDirectory
  deriving DecidableEq

/-- The wording of a fault of the file with a given path. -/
def FileFault.message (fault : FileFault) (path : Path) : String :=
  let what :=
    match fault with
    | .missing => "[Errno 2] No such file or directory"
    | .notDirectory => "[Errno 20] Not a directory"
    | .isDirectory => "[Errno 21] Is a directory"
  what ++ ": " ++ Text.quoted path.render

/-- A directory tree: directories and files by the parts of their paths. -/
structure Tree where
  directories : List (List String)
  files : List (List String × List UInt8)

/-- A tree with the given directories and files. -/
def Tree.ofEntries (directories : List String) (files : List (String × List UInt8)) : Tree :=
  { directories := directories.map fun d => (Path.ofText d).parts
    files := files.map fun f => ((Path.ofText f.1).parts, f.2) }

/-- Whether a directory is in the tree; the directories around a directory or a file
are in it too. -/
def Tree.hasDirectory (t : Tree) (path : List String) : Bool :=
  path.isEmpty || (t.directories.any fun d => path.isPrefixOf d) ||
    t.files.any fun f => path.isPrefixOf f.1.dropLast

/-- Go along a path from the directory `here` of the tree, or from somewhere outside
it, where nothing but directories above the tree can be reached. -/
def Tree.walk (t : Tree) (here : Option (List String)) :
    List String → Except FileFault (List UInt8)
  | [] => .error .isDirectory
  | part :: rest =>
      match here with
      | none => if part = ".." then t.walk none rest else .error .missing
      | some dir =>
          if part = ".." then t.walk (if dir.isEmpty then none else some dir.dropLast) rest
          else
            let path := dir ++ [part]
            if t.hasDirectory path then t.walk (some path) rest
            else
              match t.files.lookup path with
              | none => .error .missing
              | some bytes => if rest.isEmpty then .ok bytes else .error .notDirectory

/-- Read the file with a given path. -/
def Tree.read (t : Tree) (path : Path) : Except FileFault (List UInt8) :=
  t.walk (if path.root = "" then some [] else none) path.parts

end FrameLisp.CommandLine
