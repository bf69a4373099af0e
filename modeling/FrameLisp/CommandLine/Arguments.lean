/-
FrameLisp/CommandLine/Arguments.lean

The arguments of the command line.

Arguments are first sorted by their look, then taken from left to right.  An option
may be shortened as long as only one long option starts that way, and may carry its
argument behind an equals sign.  Everything behind `--` is positional, and so is a
lone dash, a negative number and, unless an option can be made out, anything with a
space in it.

There is room for one positional argument.  What finds no place is reported at the
end, all of it together; a request for help and a fault of an option count as soon
as they are met.
-/
import FrameLisp.Number.Integer
import FrameLisp.Text.Quoted

namespace FrameLisp.CommandLine

/-! ### Options -/

/-- The options. -/
inductive Flag where
  | help
  | logLevel
  deriving DecidableEq

/-- The long spelling of an option. -/
def Flag.long : Flag → String
  | .help => "--help"
  | .logLevel => "--log-level"

/-- How an option is named in messages. -/
def Flag.label : Flag → String
  | .help => "-h/--help"
  | .logLevel => "--log-level"

/-- All options. -/
def Flag.all : List Flag := [.help, .logLevel]

/-! ### Sorting arguments -/

/-- An argument by its look. -/
inductive Argument where
  | positional (text : String)
  /-- The mark after which everything is positional. -/
  | separator
  /-- An option, with the text behind its equals sign if there is one. -/
  | option (flag : Flag) (value : Option String)
  /-- The short option for help, with more behind it in the same argument. -/
  | helpCluster (behind : List Char)
  /-- It looks like an option, but there is none of that name. -/
  | unknown (text : String)

/-- Whether a text looks like a negative number; a line feed at its end is ignored. -/
def isNegativeNumber (cs : List Char) : Bool :=
  let isDigit (c : Char) := (Number.decimalDigit? c).isSome
  match cs with
  | '-' :: rest =>
      let body := if rest.getLast? = some '\n' then rest.dropLast else rest
      let fraction := (body.dropWhile isDigit).drop 1
      (!body.isEmpty && body.all isDigit) ||
        ((body.dropWhile isDigit).head? == some '.' && !fraction.isEmpty && fraction.all isDigit)
  | _ => false

/-- Split a text at its first equals sign. -/
def splitValue (cs : List Char) : List Char × Option String :=
  match cs.dropWhile (· ≠ '=') with
  | [] => (cs, none)
  | _ :: value => (cs.takeWhile (· ≠ '='), some (String.ofList value))

/-- The long options that a text shortens. -/
def candidates (name : List Char) : List Flag :=
  Flag.all.filter fun flag => name.isPrefixOf flag.long.toList

/-- Sort one argument in front of the separator.  The only failure is an option
shortened so far that it could be several. -/
def Argument.ofText (text : String) : Except String Argument :=
  let other : Argument :=
    if isNegativeNumber text.toList || text.toList.contains ' ' then .positional text
    else .unknown text
  match text.toList with
  | '-' :: '-' :: rest =>
      let (name, value) := splitValue ('-' :: '-' :: rest)
      match candidates name with
      | [] => .ok other
      | [flag] => .ok (.option flag value)
      | flags =>
          .error ("ambiguous option: " ++ text ++ " could match " ++
            ", ".intercalate (flags.map Flag.long))
  | ['-', 'h'] => .ok (.option .help none)
  | '-' :: 'h' :: '=' :: behind => .ok (.helpCluster behind)
  | '-' :: 'h' :: behind => .ok (.helpCluster behind)
  | '-' :: _ :: _ => .ok other
  | _ => .ok (.positional text)

/-- Sort all arguments. -/
def Argument.ofTexts : List String → Except String (List Argument)
  | [] => .ok []
  | text :: rest =>
      if text = "--" then .ok (.separator :: rest.map .positional)
      else do
        let first ← Argument.ofText text
        return first :: (← Argument.ofTexts rest)

/-! ### Taking arguments -/

/-- What the arguments ask for. -/
structure Options where
  file : Option String := none
  logLevel : String := "WARNING"
  deriving DecidableEq

/-- What is to be done. -/
inductive Request where
  | help
  | run (options : Options)
  deriving DecidableEq

/-- The complaint about an argument that an option has no use for. -/
def ignored (flag : Flag) (value : String) : String :=
  "argument " ++ flag.label ++ ": ignored explicit argument " ++ Text.quoted value

/-- Read on behind the short option for help: the option may be repeated, and nothing
else may follow. -/
def readCluster : List Char → Except String Request
  | ['h'] => .ok .help
  | 'h' :: rest => readCluster rest
  | rest => .error (ignored .help (String.ofList rest))

/-- An argument as text, an option in its long spelling. -/
def Argument.text : Argument → String
  | .positional text => text
  | .separator => "--"
  | .option flag _ => flag.long
  | .helpCluster behind => String.ofList ('-' :: 'h' :: behind)
  | .unknown text => text

/-- The end: complain if some arguments found no place. -/
def finish (options : Options) (extras : List String) : Except String Request :=
  if extras.isEmpty then .ok (.run options)
  else .error ("unrecognized arguments: " ++ " ".intercalate extras)

/-- Take arguments from left to right.  `placed` says whether the positional argument
has been taken, `extras` holds what found no place. -/
def take (options : Options) (placed : Bool) (extras : List String) :
    List Argument → Except String Request
  | [] => finish options extras
  | .separator :: rest =>
      if placed then finish options (extras ++ "--" :: rest.map Argument.text)
      else
        match rest with
        | [] => finish options extras
        | first :: more =>
            finish { options with file := some first.text } (extras ++ more.map Argument.text)
  | .positional text :: rest =>
      if placed then take options placed (extras ++ [text]) rest
      else
        -- a separator right behind the positional argument goes with it
        match rest with
        | .separator :: more =>
            finish { options with file := some text } (extras ++ more.map Argument.text)
        | rest => take { options with file := some text } true extras rest
  | .option .help none :: _ => .ok .help
  | .option .help (some value) :: _ => .error (ignored .help value)
  | .helpCluster behind :: _ => readCluster behind
  | .option .logLevel (some value) :: rest =>
      take { options with logLevel := value } placed extras rest
  | .option .logLevel none :: .positional value :: rest =>
      take { options with logLevel := value } placed extras rest
  | .option .logLevel none :: _ => .error "argument --log-level: expected one argument"
  | .unknown text :: rest => take options placed (extras ++ [text]) rest

/-- What the command line asks for, or a complaint. -/
def parse (args : List String) : Except String Request := do
  take {} false [] (← Argument.ofTexts args)

/-! ### Texts -/

/-- The line that sums up the usage. -/
def usage : String := "usage: klisp [-h] [--log-level LOG_LEVEL] [file]\n"

/-- The text of `--help`. -/
def helpText : String :=
  usage ++ "\n" ++
  "positional arguments:\n" ++
  "  file                  file to interpret and run (if empty, goes to command-\n" ++
  "                        line mode)\n" ++
  "\n" ++
  "options:\n" ++
  "  -h, --help            show this help message and exit\n" ++
  "  --log-level LOG_LEVEL\n" ++
  "                        logging level (default: WARNING)\n"

/-- A complaint about the command line or a setting, under the usage line. -/
def complaint (message : String) : String := usage ++ "klisp: error: " ++ message ++ "\n"

end FrameLisp.CommandLine
