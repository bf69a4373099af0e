/-
FrameLisp/Expr/Read.lean

Reading expressions from tokens.

The reader walks along a stream of tokens and keeps what it has not consumed, also
when it fails, so that reading can go on from there.  Its three moves are to look
at the next token, to take it, and to put one back; the last is used for a quote
mark with something behind it in the same token, whose rest is read as a token of
its own.

Special forms are read by keyword wherever they stand.  A list that starts with one
holds nothing else.

`readExpr` takes the number of nested expressions it may enter.  The items of a list
and the roots of a program are not nested in each other: they are read by a loop
that runs at most once for each token there is, because every expression takes at
least one.
-/
import FrameLisp.Fault
import FrameLisp.Token

namespace FrameLisp

/-- A step of reading: it may stop early, and leaves the tokens it did not take. -/
abbrev ReadM := ExceptT ReadStop (StateM (List Token))

namespace ReadM

/-! ### The stream of tokens -/

/-- The next token, left in place. -/
def peek : ReadM Token := do
  match ← get with
  | [] => throw (.fault .endOfInput)
  | token :: _ => return token

/-- Take the next token. -/
def advance : ReadM Token := do
  match ← get with
  | [] => throw (.fault .endOfInput)
  | token :: rest =>
      set rest
      return token

/-- Put a token back in front. -/
def push (token : Token) : ReadM Unit :=
  modify fun rest => token :: rest

/-- Take a token as a name for `form`: any token but a parenthesis. -/
def name (form : String) : ReadM String := do
  let token ← advance
  if token = "(" ∨ token = ")" then throw (.fault (.nameExpected form token))
  else return token

/-! ### Parts of expressions -/

/-- The parameter names up to the closing parenthesis, after the names in `done`
(last one first). -/
def paramsFrom (done : List String) : List Token → Except ReadStop (List String) × List Token
  | [] => (.error (.fault .endOfInput), [])
  | token :: rest =>
      if token = ")" then (.ok done.reverse, rest)
      else if token = "(" then (.error (.fault .nestedParameter), token :: rest)
      else paramsFrom (token :: done) rest

/-- A parameter list between parentheses. -/
def params : ReadM (List String) := do
  let token ← peek
  if token = "(" then
    let _ ← advance
    paramsFrom []
  else throw (.fault (.parametersExpected token))

/-- The rest of a special form, after its keyword. -/
def form (expr : ReadM Expr) : Keyword → ReadM Expr
  | .cond => do
      let test ← expr
      let consequent ← expr
      let alternative ← expr
      return .cond test consequent alternative
  | .define => do
      let x ← name Keyword.define.name
      return .define x (← expr)
  | .lambda => do
      let ps ← params
      return .lambda ps (← expr)
  | .quote => return .quote (← expr)
  | .assign => do
      let x ← name Keyword.assign.name
      return .assign x (← expr)

/-- Items up to the closing parenthesis, after the items in `done` (last one first).
The tokens there were at the start bound the number of rounds: when none of them is
left, every token has been taken. -/
def itemsFrom (expr : ReadM Expr) : (bound : List Token) → List Expr → ReadM (List Expr)
  | [], _ => throw (.fault .endOfInput)
  | _ :: bound, done => do
      let token ← peek
      if token = ")" then
        let _ ← advance
        return done.reverse
      else
        match done with
        | [first] =>
            if first.isForm then throw (.fault (.afterForm token first))
            else itemsFrom expr bound [← expr, first]
        | _ => itemsFrom expr bound ((← expr) :: done)

/-- The items of a list, after its opening parenthesis. -/
def items (expr : ReadM Expr) : ReadM (List Expr) := do
  itemsFrom expr (← get) []

end ReadM

open ReadM in
/-- Read one expression that nests at most `limit` deep. -/
def readExpr : (limit : Nat) → ReadM Expr
  | 0 => throw .tooDeep
  | limit + 1 => do
      let token ← advance
      match token.shape with
      | .opening => return .list (← items (readExpr limit))
      | .closing => throw (.fault .strayClosing)
      | .quoteMark rest =>
          if rest ≠ "" then push rest
          form (readExpr limit) .quote
      | .number x => return .number x
      | .text s => return .text s
      | .unterminated => throw (.fault (.unterminatedText token))
      | .keyword k => form (readExpr limit) k
      | .name => return .symbol token

/-! ### Whole programs -/

/-- What reading a whole stream gave: the expressions read, why reading stopped
before the end if it did, and the tokens left. -/
structure Roots where
  exprs : List Expr
  stop : Option ReadStop
  left : List Token

/-- Read expressions to the end, after those in `done` (last one first).  The tokens
there were at the start bound the number of rounds. -/
def readRootsFrom (limit : Nat) : (bound : List Token) → List Expr → List Token → Roots
  | [], done, tokens => ⟨done.reverse, none, tokens⟩
  | _ :: _, done, [] => ⟨done.reverse, none, []⟩
  | _ :: bound, done, tokens =>
      match readExpr limit tokens with
      | (.ok e, rest) => readRootsFrom limit bound (e :: done) rest
      | (.error stop, rest) => ⟨done.reverse, some stop, rest⟩

/-- Read every expression of a stream. -/
def readRoots (limit : Nat) (tokens : List Token) : Roots :=
  readRootsFrom limit tokens [] tokens

/-- Read every expression of a program. -/
def readAll (limit : Nat) (source : String) : Except ReadStop (List Expr) :=
  let roots := readRoots limit (tokenize source)
  match roots.stop with
  | none => .ok roots.exprs
  | some stop => .error stop

/-- Read a program that consists of one expression; a blank one is `nil`. -/
def readOne (limit : Nat) (source : String) : Except ReadStop Expr :=
  match tokenize source with
  | [] => .ok .nil
  | tokens =>
      match readExpr limit tokens with
      | (.error stop, _) => .error stop
      | (.ok e, []) => .ok e
      | (.ok _, token :: _) =>
          .error (.fault (if token = ")" then .strayClosing else .trailing token))

end FrameLisp
