/-
FrameLisp/Proofs/Reading/Steps.lean

What the reader does with the tokens in front of it, one equation for each case.

The reader is a state monad over the tokens that are left.  These equations apply
its steps to a list of tokens, so that proofs about whole expressions need not open
the monad: each says what becomes of the tokens in front, and what is left to do.
-/
import FrameLisp.Proofs.Run
import FrameLisp.Proofs.Reading.Shape

namespace FrameLisp

namespace ReadM

/-! ### The stream of tokens -/

@[simp] theorem advance_nil : advance [] = (.error (.fault .endOfInput), []) := rfl

@[simp] theorem advance_cons (t : Token) (ts : List Token) :
    advance (t :: ts) = (.ok t, ts) := rfl

@[simp] theorem peek_nil : peek [] = (.error (.fault .endOfInput), []) := rfl

@[simp] theorem peek_cons (t : Token) (ts : List Token) :
    peek (t :: ts) = (.ok t, t :: ts) := rfl

@[simp] theorem push_apply (t : Token) (ts : List Token) : push t ts = (.ok ⟨⟩, t :: ts) := rfl

variable {t : Token}

@[simp] theorem name_nil (form : String) :
    name form [] = (.error (.fault .endOfInput), []) := rfl

theorem name_cons (ht : t.IsBindable) (form : String) (ts : List Token) :
    name form (t :: ts) = (.ok t, ts) := by
  rw [name, Run.bind_ok (advance_cons t ts), if_neg (by simp [ht.1, ht.2])]
  rfl

theorem name_paren (ht : ¬t.IsBindable) (form : String) (ts : List Token) :
    name form (t :: ts) = (.error (.fault (.nameExpected form t)), ts) := by
  have hparen : t = "(" ∨ t = ")" := by
    rw [Token.IsBindable, Classical.not_and_iff_not_or_not] at ht
    simpa using ht
  rw [name, Run.bind_ok (advance_cons t ts), if_pos hparen]
  rfl

/-! ### Parameter lists -/

@[simp] theorem params_nil : params [] = (.error (.fault .endOfInput), []) := rfl

@[simp] theorem params_opening (ts : List Token) : params ("(" :: ts) = paramsFrom [] ts := rfl

theorem params_other (ht : t ≠ "(") (ts : List Token) :
    params (t :: ts) = (.error (.fault (.parametersExpected t)), t :: ts) := by
  rw [params, Run.bind_ok (peek_cons t ts), if_neg ht]
  rfl

/-! ### Items of a list -/

variable {expr : ReadM Expr} {bound ts : List Token} {done : List Expr}

theorem itemsFrom_nil (expr : ReadM Expr) (bound : List Token) (done : List Expr) :
    itemsFrom expr bound done [] = (.error (.fault .endOfInput), []) := by
  cases bound <;> rfl

theorem itemsFrom_closing (expr : ReadM Expr) (b : Token) (bound : List Token)
    (done : List Expr) (ts : List Token) :
    itemsFrom expr (b :: bound) done (")" :: ts) = (.ok done.reverse, ts) := rfl

theorem itemsFrom_form {first : Expr} (hform : first.isForm = true) (ht : t ≠ ")") (b : Token) :
    itemsFrom expr (b :: bound) [first] (t :: ts) =
      (.error (.fault (.afterForm t first)), t :: ts) := by
  rw [itemsFrom, Run.bind_ok (peek_cons t ts), if_neg ht]
  simp only [hform, if_true]
  rfl

/-- Either a special form stands alone in front, or another item may follow. -/
theorem form_alone_or_next (done : List Expr) :
    (∃ first, done = [first] ∧ first.isForm = true) ∨
      ∀ first, done = [first] → first.isForm = false := by
  by_cases h : ∃ first, done = [first] ∧ first.isForm = true
  · exact .inl h
  · refine .inr fun first hdone => ?_
    simpa using fun hfirst => h ⟨first, hdone, hfirst⟩

/-- Unless a special form stands alone in front, the next item is read. -/
theorem itemsFrom_next (hdone : ∀ first, done = [first] → first.isForm = false) (ht : t ≠ ")")
    (b : Token) :
    itemsFrom expr (b :: bound) done (t :: ts) =
      (expr >>= fun e => itemsFrom expr bound (e :: done)) (t :: ts) := by
  rw [itemsFrom, Run.bind_ok (peek_cons t ts), if_neg ht]
  split
  · next first =>
      simp only [hdone first rfl]
      rfl
  · rfl

end ReadM

/-! ### Expressions -/

open ReadM

theorem readExpr_nil (limit : Nat) :
    readExpr (limit + 1) [] = (.error (.fault .endOfInput), []) := rfl

theorem readExpr_opening (limit : Nat) (ts : List Token) :
    readExpr (limit + 1) ("(" :: ts) =
      (itemsFrom (readExpr limit) ts [] >>= fun es => pure (.list es)) ts := rfl

theorem readExpr_closing (limit : Nat) (ts : List Token) :
    readExpr (limit + 1) (")" :: ts) = (.error (.fault .strayClosing), ts) := rfl

theorem readExpr_quoteMark (limit : Nat) (ts : List Token) :
    readExpr (limit + 1) ("'" :: ts) = form (readExpr limit) .quote ts := rfl

/-- What is glued to a quote mark is put back and read as a token of its own. -/
theorem readExpr_glued {r : Token} (hr : r ≠ "") (limit : Nat) (ts : List Token) :
    readExpr (limit + 1) (("'" ++ r) :: ts) = form (readExpr limit) .quote (r :: ts) := by
  rw [readExpr, Run.bind_ok (advance_cons _ ts), (Token.HasShape.quoteMark r).shape_eq]
  simp only [ne_eq, hr, not_false_eq_true, if_true]
  exact Run.bind_ok (push_apply r ts)

theorem readExpr_number {t : Token} {x : Float} (ht : Number.ofToken? t = some x) (limit : Nat)
    (ts : List Token) : readExpr (limit + 1) (t :: ts) = (.ok (.number x), ts) := by
  rw [readExpr, Run.bind_ok (advance_cons _ ts), (Token.HasShape.number ht).shape_eq]
  rfl

theorem readExpr_text (s : String) (limit : Nat) (ts : List Token) :
    readExpr (limit + 1) (("\"" ++ s ++ "\"") :: ts) = (.ok (.text s), ts) := by
  rw [readExpr, Run.bind_ok (advance_cons _ ts), (Token.HasShape.text s).shape_eq]
  rfl

theorem readExpr_unterminated {t : Token} (ht : t.HasShape .unterminated) (limit : Nat)
    (ts : List Token) :
    readExpr (limit + 1) (t :: ts) = (.error (.fault (.unterminatedText t)), ts) := by
  rw [readExpr, Run.bind_ok (advance_cons _ ts), ht.shape_eq]
  rfl

theorem readExpr_keyword (k : Keyword) (limit : Nat) (ts : List Token) :
    readExpr (limit + 1) (k.name :: ts) = form (readExpr limit) k ts := by
  rw [readExpr, Run.bind_ok (advance_cons _ ts), (Token.HasShape.keyword k).shape_eq]

theorem readExpr_symbol {t : Token} (ht : t.IsSymbol) (limit : Nat) (ts : List Token) :
    readExpr (limit + 1) (t :: ts) = (.ok (.symbol t), ts) := by
  rw [readExpr, Run.bind_ok (advance_cons _ ts), (Token.HasShape.name ht).shape_eq]
  rfl

end FrameLisp
