/-
FrameLisp/Proofs/Reading/Words.lean

Splitting text into tokens, from left to right.

`tokenize` folds from the right and keeps the run of characters that is still open.
Read from the left it does this: a blank is skipped, a parenthesis is a token, and a
run of other characters is a token if it is followed by a blank, a parenthesis or the
end (`tokenizeChars_blank`, `tokenizeChars_paren`, `tokenizeChars_word`).  A quote mark
is one of the other characters: it is glued to the run behind it, and a token of its
own in front of a parenthesis (`tokenizeChars_quote`).  Blanks between two texts keep
their tokens apart (`tokenize_append_blank`), and blanks around a text do not count
(`tokenize_trim`).

Every token is a parenthesis or a word, that is, a run that is not empty
(`isLegal_of_mem_tokenize`).
-/
import FrameLisp.Proofs.Reading.Shape

namespace FrameLisp

/-! ### Words -/

/-- A character that ends a run: a blank or a parenthesis. -/
def IsBreak (c : Char) : Prop := Text.isBlank c = true ∨ c = '(' ∨ c = ')'

instance (c : Char) : Decidable (IsBreak c) :=
  inferInstanceAs (Decidable (_ ∨ _))

namespace Token

/-- A run of characters that is not empty. -/
def IsWord (t : Token) : Prop := t ≠ "" ∧ ∀ c ∈ t.toList, ¬IsBreak c

/-- A token that text can be split into. -/
def IsLegal (t : Token) : Prop := t = "(" ∨ t = ")" ∨ t.IsWord

theorem IsWord.isBindable {t : Token} (h : t.IsWord) : t.IsBindable := by
  constructor
  · rintro rfl
    exact h.2 '(' (by decide) (by decide)
  · rintro rfl
    exact h.2 ')' (by decide) (by decide)

theorem IsLegal.isWord {t : Token} (h : t.IsLegal) (hb : t.IsBindable) : t.IsWord := by
  obtain rfl | rfl | hw := h
  · exact absurd rfl hb.1
  · exact absurd rfl hb.2
  · exact hw

/-- The run that is open in front of the characters, and the tokens after it. -/
def scanned (cs : List Char) : List Char × List Token := cs.foldr scan ([], [])

end Token

open Token

theorem tokenizeChars_eq (cs : List Char) :
    tokenizeChars cs = close (scanned cs).1 (scanned cs).2 := rfl

/-- The characters do not go on with a run. -/
def Breaks (cs : List Char) : Prop := ∀ c ∈ cs.head?, IsBreak c

theorem breaks_nil : Breaks [] := nofun

theorem breaks_cons {c : Char} (hc : IsBreak c) (cs : List Char) : Breaks (c :: cs) := by
  intro d hd
  cases hd
  exact hc

/-! ### One character at a time -/

theorem scanned_blank {c : Char} (hc : Text.isBlank c = true) (cs : List Char) :
    scanned (c :: cs) = ([], tokenizeChars cs) := by
  show scan c (scanned cs) = _
  rw [scan, if_pos hc]
  rfl

theorem scanned_paren {c : Char} (hc : c = '(' ∨ c = ')') (cs : List Char) :
    scanned (c :: cs) = ([], String.singleton c :: tokenizeChars cs) := by
  have hblank : ¬Text.isBlank c = true := by
    rcases hc with rfl | rfl <;> decide
  show scan c (scanned cs) = _
  rw [scan, if_neg hblank, if_pos hc]
  rfl

theorem scanned_other {c : Char} (hc : ¬IsBreak c) (cs : List Char) :
    scanned (c :: cs) = (c :: (scanned cs).1, (scanned cs).2) := by
  rw [IsBreak, not_or] at hc
  show scan c (scanned cs) = _
  rw [scan, if_neg hc.1, if_neg hc.2]

theorem tokenizeChars_blank {c : Char} (hc : Text.isBlank c = true) (cs : List Char) :
    tokenizeChars (c :: cs) = tokenizeChars cs := by
  rw [tokenizeChars_eq, scanned_blank hc]
  rfl

theorem tokenizeChars_paren {c : Char} (hc : c = '(' ∨ c = ')') (cs : List Char) :
    tokenizeChars (c :: cs) = String.singleton c :: tokenizeChars cs := by
  rw [tokenizeChars_eq, scanned_paren hc]
  rfl

/-! ### Runs -/

theorem scanned_of_breaks {cs : List Char} (h : Breaks cs) :
    scanned cs = ([], tokenizeChars cs) := by
  cases cs with
  | nil => rfl
  | cons c cs =>
      obtain hblank | hparen := h c rfl
      · rw [scanned_blank hblank, tokenizeChars_blank hblank]
      · rw [scanned_paren hparen, tokenizeChars_paren hparen]

theorem scanned_append {w : List Char} (hw : ∀ c ∈ w, ¬IsBreak c) (cs : List Char) :
    scanned (w ++ cs) = (w ++ (scanned cs).1, (scanned cs).2) := by
  induction w with
  | nil => rfl
  | cons c w ih =>
      obtain ⟨hc, hw⟩ := List.forall_mem_cons.mp hw
      rw [List.cons_append, scanned_other hc, ih hw]
      rfl

theorem tokenizeChars_word {t : Token} (ht : t.IsWord) {cs : List Char} (hcs : Breaks cs) :
    tokenizeChars (t.toList ++ cs) = t :: tokenizeChars cs := by
  have hne : t.toList ≠ [] := by simpa using ht.1
  rw [tokenizeChars_eq, scanned_append ht.2, scanned_of_breaks hcs, List.append_nil, close,
    if_neg hne, String.ofList_toList]

theorem tokenizeChars_word_blank {t : Token} (ht : t.IsWord) (cs : List Char) :
    tokenizeChars (t.toList ++ ' ' :: cs) = t :: tokenizeChars cs := by
  rw [tokenizeChars_word ht (breaks_cons (by decide) cs), tokenizeChars_blank (by decide)]

theorem Keyword.isWord_name (k : Keyword) : IsWord k.name := by
  have hall : (k.name.toList.all fun c => !decide (IsBreak c)) = true := by
    cases k <;> decide
  refine ⟨by cases k <;> decide, fun c hc => ?_⟩
  simpa using List.all_eq_true.mp hall c hc

/-! ### Quote marks -/

/-- A quote mark in front of tokens: glued to the first one unless that is a
parenthesis. -/
def glue : List Token → List Token
  | [] => ["'"]
  | t :: ts => if t = "(" then "'" :: t :: ts else ("'" ++ t) :: ts

theorem tokenizeChars_quote {c : Char} (hc : c = '(' ∨ ¬IsBreak c) (cs : List Char) :
    tokenizeChars ('\'' :: c :: cs) = glue (tokenizeChars (c :: cs)) := by
  rw [tokenizeChars_eq, scanned_other (by decide)]
  obtain rfl | hc := hc
  · rw [scanned_paren (.inl rfl), tokenizeChars_paren (.inl rfl)]
    rfl
  · -- the run behind the mark starts with `c`, so it is no parenthesis
    have hne : String.ofList (c :: (scanned cs).1) ≠ "(" := by
      intro heq
      have hchars := congrArg String.toList heq
      rw [String.toList_ofList] at hchars
      obtain ⟨rfl, -⟩ : c = '(' ∧ _ := List.cons.inj hchars
      exact hc (by decide)
    rw [scanned_other hc, tokenizeChars_eq (c :: cs), scanned_other hc]
    simp only [close, List.cons_ne_nil, if_false, glue, hne]
    congr 1
    rw [← String.toList_inj]
    simp

/-! ### Blanks between texts -/

theorem Token.close_append (run : List Char) (after later : List Token) :
    close run (after ++ later) = close run after ++ later := by
  unfold close
  split
  · rfl
  · rw [List.cons_append]

/-- The tokens behind stay behind while characters are taken in on the left. -/
theorem Token.scan_append (c : Char) (state : List Char × List Token) (later : List Token) :
    scan c (state.1, state.2 ++ later) = ((scan c state).1, (scan c state).2 ++ later) := by
  unfold scan
  split
  · rw [close_append]
  · split
    · rw [close_append, List.cons_append]
    · rfl

/-- A blank closes the run in front of it. -/
theorem scanned_append_blank {c : Char} (hc : Text.isBlank c = true) (cs ds : List Char) :
    scanned (cs ++ c :: ds) = ((scanned cs).1, (scanned cs).2 ++ tokenizeChars ds) := by
  induction cs with
  | nil => exact scanned_blank hc ds
  | cons d cs ih =>
      show scan d (scanned (cs ++ c :: ds)) = _
      rw [ih, scan_append]
      rfl

theorem tokenizeChars_append_blank {c : Char} (hc : Text.isBlank c = true) (cs ds : List Char) :
    tokenizeChars (cs ++ c :: ds) = tokenizeChars cs ++ tokenizeChars ds := by
  rw [tokenizeChars_eq, scanned_append_blank hc, close_append]
  rfl

theorem tokenizeChars_blanks {w : List Char} (hw : ∀ c ∈ w, Text.isBlank c = true)
    (cs : List Char) : tokenizeChars (w ++ cs) = tokenizeChars cs := by
  induction w with
  | nil => rfl
  | cons c w ih =>
      obtain ⟨hc, hw⟩ := List.forall_mem_cons.mp hw
      rw [List.cons_append, tokenizeChars_blank hc, ih hw]

/-- **Blanks between two texts keep their tokens apart.** -/
theorem tokenize_append_blank {w : String} (hne : w ≠ "")
    (hw : ∀ c ∈ w.toList, Text.isBlank c = true) (a b : String) :
    tokenize (a ++ w ++ b) = tokenize a ++ tokenize b := by
  obtain ⟨c, cs, hcs⟩ : ∃ c cs, w.toList = c :: cs :=
    List.exists_cons_of_ne_nil (by simpa using hne)
  rw [hcs] at hw
  obtain ⟨hc, hw⟩ := List.forall_mem_cons.mp hw
  rw [tokenize, String.toList_append, String.toList_append, hcs, List.append_assoc,
    List.cons_append, tokenizeChars_append_blank hc, tokenizeChars_blanks hw]
  rfl

/-! ### Blanks around a text -/

theorem tokenizeChars_append_blanks {w : List Char} (hw : ∀ c ∈ w, Text.isBlank c = true)
    (cs : List Char) : tokenizeChars (cs ++ w) = tokenizeChars cs := by
  cases w with
  | nil => rw [List.append_nil]
  | cons c w =>
      obtain ⟨hc, hw⟩ := List.forall_mem_cons.mp hw
      have hrest : tokenizeChars w = [] := by
        rw [← List.append_nil w, tokenizeChars_blanks hw]
        rfl
      rw [tokenizeChars_append_blank hc, hrest, List.append_nil]

/-- What is trimmed off are blanks. -/
theorem Text.exists_trimChars (cs : List Char) :
    ∃ front back, (∀ c ∈ front, isBlank c = true) ∧ (∀ c ∈ back, isBlank c = true) ∧
      cs = front ++ (trimChars cs ++ back) := by
  refine ⟨cs.takeWhile isBlank, ((cs.dropWhile isBlank).reverse.takeWhile isBlank).reverse,
    fun c hc => ?_, fun c hc => ?_, ?_⟩
  · exact List.all_eq_true.mp List.all_takeWhile c hc
  · exact List.all_eq_true.mp List.all_takeWhile c (List.mem_reverse.mp hc)
  · rw [trimChars, ← List.reverse_append, List.takeWhile_append_dropWhile, List.reverse_reverse,
      List.takeWhile_append_dropWhile]

/-- **Trimming a text leaves its tokens as they are.** -/
theorem tokenize_trim (text : String) : tokenize (Text.trim text) = tokenize text := by
  obtain ⟨front, back, hfront, hback, htext⟩ := Text.exists_trimChars text.toList
  have hsource : tokenize text = tokenizeChars (Text.trimChars text.toList) := by
    rw [← tokenizeChars_append_blanks hback (Text.trimChars text.toList),
      ← tokenizeChars_blanks hfront, ← htext, tokenize]
  rw [hsource, tokenize, Text.trim, String.toList_ofList]

/-! ### Tokens are legal -/

/-- The open run can still become a word, and the tokens after it are legal. -/
def Token.IsLegalState (state : List Char × List Token) : Prop :=
  (∀ c ∈ state.1, ¬IsBreak c) ∧ ∀ t ∈ state.2, t.IsLegal

theorem Token.IsLegalState.close {state : List Char × List Token} (h : IsLegalState state) :
    ∀ t ∈ close state.1 state.2, t.IsLegal := by
  unfold Token.close
  split
  · exact h.2
  · next hne =>
      refine List.forall_mem_cons.mpr ⟨.inr (.inr ⟨?_, ?_⟩), h.2⟩
      · simpa using hne
      · rw [String.toList_ofList]
        exact h.1

/-- Taking in one more character keeps the state legal. -/
theorem Token.IsLegalState.scan {state : List Char × List Token} (h : IsLegalState state)
    (c : Char) : IsLegalState (scan c state) := by
  unfold Token.scan
  split
  · exact ⟨nofun, h.close⟩
  · next hblank =>
      split
      · next hparen =>
          refine ⟨nofun, List.forall_mem_cons.mpr ⟨?_, h.close⟩⟩
          rcases hparen with rfl | rfl
          · exact .inl rfl
          · exact .inr (.inl rfl)
      · next hparen =>
          have hc : ¬IsBreak c := not_or.mpr ⟨hblank, hparen⟩
          exact ⟨List.forall_mem_cons.mpr ⟨hc, h.1⟩, h.2⟩

theorem Token.isLegalState_scanned (cs : List Char) : IsLegalState (scanned cs) := by
  induction cs with
  | nil => exact ⟨nofun, nofun⟩
  | cons c cs ih => exact ih.scan c

theorem isLegal_of_mem_tokenize {source : String} {t : Token} (ht : t ∈ tokenize source) :
    t.IsLegal :=
  (isLegalState_scanned source.toList).close t ht

end FrameLisp
