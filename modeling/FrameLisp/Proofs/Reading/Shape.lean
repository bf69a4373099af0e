/-
FrameLisp/Proofs/Reading/Shape.lean

The shapes of tokens, said token by token.

`Token.shape` sorts a token by a chain of tests in which the earlier ones take
precedence.  Here every shape has a condition of its own that mentions no order:
`Token.HasShape` lists them, and a token has exactly the shape it is sorted into
(`hasShape_shape`, `HasShape.shape_eq`).  That the conditions exclude each other
comes down to first characters: no number literal starts with a parenthesis or with
one of the two kinds of quotes.
-/
import FrameLisp.Expr.Read

namespace FrameLisp

/-! ### Number literals -/

namespace Number

/-- A literal starts with a sign, a point or a digit. -/
theorem Literal.ofChars?_eq_none {c : Char} (hplus : c ≠ '+') (hminus : c ≠ '-')
    (hpoint : c ≠ '.') (hdigit : c.isDigit = false) (cs : List Char) :
    Literal.ofChars? (c :: cs) = none := by
  simp [Literal.ofChars?, takeSign, takeFraction, hplus, hminus, hpoint, hdigit]

theorem ofToken?_eq_none {t : String} {c : Char} {cs : List Char} (ht : t.toList = c :: cs)
    (hplus : c ≠ '+') (hminus : c ≠ '-') (hpoint : c ≠ '.') (hdigit : c.isDigit = false) :
    ofToken? t = none := by
  rw [ofToken?, Literal.ofToken?, ht, Literal.ofChars?_eq_none hplus hminus hpoint hdigit]
  rfl

end Number

namespace Token

/-! ### Classes of tokens -/

/-- A token that can be bound: any but a parenthesis. -/
def IsBindable (t : Token) : Prop := t ≠ "(" ∧ t ≠ ")"

/-- A token that reads as a symbol. -/
structure IsSymbol (t : Token) : Prop where
  bindable : t.IsBindable
  notKeyword : ∀ k : Keyword, t ≠ k.name
  notQuote : t.toList.head? ≠ some '\''
  notText : t.toList.head? ≠ some '"'
  notNumber : Number.ofToken? t = none

/-- What it takes for a token to have a shape. -/
inductive HasShape : Token → Shape → Prop
  | opening : HasShape "(" .opening
  | closing : HasShape ")" .closing
  | quoteMark (r : Token) : HasShape ("'" ++ r) (.quoteMark r)
  | number {t x} : Number.ofToken? t = some x → HasShape t (.number x)
  | text (s : String) : HasShape ("\"" ++ s ++ "\"") (.text s)
  | unterminated {t} :
      t.toList.head? = some '"' → (∀ s, t ≠ "\"" ++ s ++ "\"") → HasShape t .unterminated
  | keyword (k : Keyword) : HasShape k.name (.keyword k)
  | name {t} : t.IsSymbol → HasShape t .name

/-! ### One class at a time -/

theorem eq_quote_append {t : Token} {cs : List Char} (h : t.toList = '\'' :: cs) :
    t = "'" ++ String.ofList cs := by
  rw [← String.toList_inj]
  simp [h]

theorem ofToken?_closed (s : String) :
    Quotation.ofToken? ("\"" ++ s ++ "\"") = some (.closed s) := by
  have hl : ("\"" ++ s ++ "\"").toList = '"' :: (s.toList ++ ['"']) := by simp
  rw [Quotation.ofToken?, hl]
  simp

theorem eq_of_ofToken?_closed {t : Token} {s : String}
    (h : Quotation.ofToken? t = some (.closed s)) : t = "\"" ++ s ++ "\"" := by
  unfold Quotation.ofToken? at h
  split at h
  · next cs ht =>
      split at h
      · next hlast =>
          cases h
          obtain ⟨ds, rfl⟩ := List.getLast?_eq_some_iff.mp hlast
          rw [← String.toList_inj]
          simp [ht]
      · cases h
  · cases h

theorem head?_of_ofToken? {t : Token} {q : Quotation} (h : Quotation.ofToken? t = some q) :
    t.toList.head? = some '"' := by
  unfold Quotation.ofToken? at h
  split at h
  · next cs ht => rw [ht, List.head?_cons]
  · cases h

theorem head?_of_ofToken?_none {t : Token} (h : Quotation.ofToken? t = none) :
    t.toList.head? ≠ some '"' := by
  intro hhead
  obtain ⟨cs, hcs⟩ := List.head?_eq_some_iff.mp hhead
  simp only [Quotation.ofToken?, hcs] at h
  split at h <;> cases h

theorem Keyword.ofToken?_name (k : Keyword) : Keyword.ofToken? k.name = some k := by
  cases k <;> rfl

theorem name_of_ofToken? {t : Token} {k : Keyword} (h : Keyword.ofToken? t = some k) :
    t = k.name := by
  simpa using List.find?_some h

/-! ### Shapes are what the classes say -/

/-- Every token has the shape it is sorted into. -/
theorem hasShape_shape (t : Token) : HasShape t t.shape := by
  unfold shape
  -- in the order in which the classes are tried; a name is what none of them took
  split
  · next h => exact h ▸ .opening
  · next hopen =>
    split
    · next h => exact h ▸ .closing
    · next hclose =>
      split
      · next cs ht => exact eq_quote_append ht ▸ .quoteMark _
      · next hquote =>
        split
        · next x hx => exact .number hx
        · next hnumber =>
          split
          · next s hs => exact eq_of_ofToken?_closed hs ▸ .text s
          · next hs =>
            refine .unterminated (head?_of_ofToken? hs) ?_
            rintro s rfl
            rw [ofToken?_closed] at hs
            cases hs
          · next hs =>
            split
            · next k hk => exact name_of_ofToken? hk ▸ .keyword k
            · next hk =>
              refine .name ⟨⟨hopen, hclose⟩, ?_, ?_, head?_of_ofToken?_none hs, hnumber⟩
              · rintro k rfl
                rw [Keyword.ofToken?_name] at hk
                cases hk
              · intro hhead
                obtain ⟨cs, hcs⟩ := List.head?_eq_some_iff.mp hhead
                exact hquote cs hcs

/-- A token that is no parenthesis and has no quote mark in front is a number, a
text, a keyword or a name. -/
theorem shape_of_isBindable {t : Token} (hb : t.IsBindable)
    (hq : t.toList.head? ≠ some '\'') :
    t.shape =
      match Number.ofToken? t with
      | some x => .number x
      | none =>
          match Quotation.ofToken? t with
          | some (.closed content) => .text content
          | some .unterminated => .unterminated
          | none =>
              match Keyword.ofToken? t with
              | some k => .keyword k
              | none => .name := by
  rw [shape, if_neg hb.1, if_neg hb.2]
  split
  · next cs ht => exact absurd (by rw [ht, List.head?_cons]) hq
  · rfl

/-- A token in double quotes is no number. -/
theorem ofToken?_of_head? {t : Token} (h : t.toList.head? = some '"') :
    Number.ofToken? t = none := by
  obtain ⟨cs, hcs⟩ := List.head?_eq_some_iff.mp h
  exact Number.ofToken?_eq_none hcs (by decide) (by decide) (by decide) (by decide)

theorem isBindable_of_head? {t : Token} {c : Char} (h : t.toList.head? = some c)
    (h₁ : c ≠ '(') (h₂ : c ≠ ')') : t.IsBindable := by
  constructor <;> rintro rfl
  · exact h₁ (by simpa using h.symm)
  · exact h₂ (by simpa using h.symm)

/-- Every token is sorted into the shape it has. -/
theorem HasShape.shape_eq {t : Token} {s : Shape} (h : HasShape t s) : t.shape = s := by
  cases h with
  | opening => rfl
  | closing => rfl
  | quoteMark r =>
      have hl : ("'" ++ r).toList = '\'' :: r.toList := by simp
      have hb : IsBindable ("'" ++ r) :=
        isBindable_of_head? (by rw [hl]; rfl) (by decide) (by decide)
      simp [shape, hb.1, hb.2]
  | @number t x h =>
      -- no number starts with a character of a class that is tried before
      have hb : t.IsBindable := by
        constructor <;> rintro rfl <;> cases h
      have hq : t.toList.head? ≠ some '\'' := by
        intro hq
        obtain ⟨cs, hcs⟩ := List.head?_eq_some_iff.mp hq
        rw [Number.ofToken?_eq_none hcs (by decide) (by decide) (by decide) (by decide)] at h
        cases h
      rw [shape_of_isBindable hb hq, h]
  | text s =>
      have hl : ("\"" ++ s ++ "\"").toList.head? = some '"' := by simp
      rw [shape_of_isBindable (isBindable_of_head? hl (by decide) (by decide)) (by simp),
        ofToken?_of_head? hl, ofToken?_closed]
  | @unterminated t h h' =>
      rw [shape_of_isBindable (isBindable_of_head? h (by decide) (by decide)) (by simp [h]),
        ofToken?_of_head? h]
      cases hs : Quotation.ofToken? t with
      | none => exact absurd h (head?_of_ofToken?_none hs)
      | some q =>
          cases q with
          | closed s => exact absurd (eq_of_ofToken?_closed hs) (h' s)
          | unterminated => rfl
  | keyword k => cases k <;> rfl
  | @name t h =>
      have hs : Quotation.ofToken? t = none := by
        refine Option.eq_none_iff_forall_ne_some.mpr fun q hq => ?_
        exact h.notText (head?_of_ofToken? hq)
      have hk : Keyword.ofToken? t = none := by
        refine Option.eq_none_iff_forall_ne_some.mpr fun k hk => ?_
        exact h.notKeyword k (name_of_ofToken? hk)
      rw [shape_of_isBindable h.bindable h.notQuote, h.notNumber, hs, hk]

end Token

end FrameLisp
