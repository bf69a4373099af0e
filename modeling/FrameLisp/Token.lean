/-
FrameLisp/Token.lean

Program text as tokens.

A token is an opening or a closing parenthesis or a longest run of characters that
are neither blank nor parentheses.  `tokenize` folds over the characters from the
right, with the run that is still open and the tokens after it; a blank or a
parenthesis closes the run.

How a single token reads is decided here as well: `Token.shape` sorts tokens into
parentheses, quote marks, literals, keywords and names.
-/
import FrameLisp.Number.Shortest
import FrameLisp.Text.Blank

namespace FrameLisp

/-- A token is a piece of program text.  A stream of tokens need not come from
`tokenize`, so any text may stand here. -/
abbrev Token := String

/-! ### Splitting text into tokens -/

/-- Put the open run, if there is one, in front of the tokens after it. -/
def Token.close (run : List Char) (after : List Token) : List Token :=
  if run = [] then after else String.ofList run :: after

/-- Take in one more character on the left. -/
def Token.scan (c : Char) (state : List Char × List Token) : List Char × List Token :=
  if Text.isBlank c then ([], Token.close state.1 state.2)
  else if c = '(' ∨ c = ')' then ([], String.singleton c :: Token.close state.1 state.2)
  else (c :: state.1, state.2)

/-- The tokens of a list of characters. -/
def tokenizeChars (cs : List Char) : List Token :=
  let state := cs.foldr Token.scan ([], [])
  Token.close state.1 state.2

/-- The tokens of a text. -/
def tokenize (source : String) : List Token := tokenizeChars source.toList

/-! ### What a token is -/

/-- The words that start a special form. -/
inductive Keyword where
  | cond
  | define
  | lambda
  | quote
  | assign
  deriving DecidableEq

/-- How a keyword is written. -/
def Keyword.name : Keyword → String
  | .cond => "if"
  | .define => "define"
  | .lambda => "lambda"
  | .quote => "quote"
  | .assign => "set!"

/-- All keywords. -/
def Keyword.all : List Keyword := [.cond, .define, .lambda, .quote, .assign]

/-- The keyword a token is, if any. -/
def Keyword.ofToken? (token : Token) : Option Keyword :=
  Keyword.all.find? fun k => token == k.name

/-- What a token that starts with a double quote is. -/
inductive Quotation where
  | closed (content : String)
  | unterminated
  deriving DecidableEq

/-- Read a token as text between double quotes; `none` if it does not start with
one.  There are no escapes. -/
def Quotation.ofToken? (token : Token) : Option Quotation :=
  match token.toList with
  | '"' :: cs =>
      if cs.getLast? = some '"' then some (.closed (String.ofList cs.dropLast))
      else some .unterminated
  | _ => none

/-- The role of a token at the start of an expression. -/
inductive Token.Shape where
  | opening
  | closing
  | quoteMark (rest : Token)
  | number (value : Float)
  | text (content : String)
  | unterminated
  | keyword (k : Keyword)
  | name

/-- Sort a token.  A quote mark takes precedence over everything that follows it in
the token. -/
def Token.shape (token : Token) : Token.Shape :=
  if token = "(" then .opening
  else if token = ")" then .closing
  else
    match token.toList with
    | '\'' :: cs => .quoteMark (String.ofList cs)
    | _ =>
        match Number.ofToken? token with
        | some x => .number x
        | none =>
            match Quotation.ofToken? token with
            | some (.closed content) => .text content
            | some .unterminated => .unterminated
            | none =>
                match Keyword.ofToken? token with
                | some k => .keyword k
                | none => .name

end FrameLisp
