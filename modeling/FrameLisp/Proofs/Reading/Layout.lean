/-
FrameLisp/Proofs/Reading/Layout.lean

The layout of program text.

A text is made up of its tokens and of the blanks around them,

    w₀ t₁ w₁ t₂ w₂ … tₙ wₙ,

where two tokens need a blank between them only if neither is a parenthesis.  A `Layout` is
such a way to write tokens down.  Layouts grow on the left, by a blank (`Layout.indent`) or by
a token (`Layout.prepend`), and a token that is a word can be added only where the text behind
it does not go on with its run.  This is how `tokenize` walks through a text, so every text is
laid out with the tokens that it splits into (`exists_layout`).  And whatever the blanks in a
layout are, its text splits into its tokens (`Layout.tokenize_text`).

There is a third way to say what the tokens are: set off every parenthesis by blanks, and take
the words between blanks (`tokenize_eq_words`).
-/
import FrameLisp.Proofs.Reading.Words
import Mathlib.Data.List.Chain

namespace FrameLisp

open Token

/-- Blanks, and nothing else. -/
def Text.IsBlanks (w : String) : Prop := ∀ c ∈ w.toList, Text.isBlank c = true

theorem Text.isBlanks_empty : IsBlanks "" := by simp [IsBlanks]

/-- Two tokens, the first with the blanks behind it, are kept apart unless one of them is a
parenthesis. -/
def Token.Apart (p q : Token × String) : Prop := p.1.IsBindable → q.1.IsBindable → p.2 ≠ ""

/-- A way to write tokens down: the blanks in front, and each token with the blanks behind
it. -/
structure Layout where
  front : String
  pieces : List (Token × String)
  front_blank : Text.IsBlanks front
  legal : ∀ p ∈ pieces, p.1.IsLegal
  blank : ∀ p ∈ pieces, Text.IsBlanks p.2
  apart : pieces.IsChain Token.Apart

namespace Layout

/-- The tokens that are written down. -/
def tokens (l : Layout) : List Token := l.pieces.map Prod.fst

/-- The text that is written. -/
def text (l : Layout) : String := l.front ++ String.join (l.pieces.map fun p => p.1 ++ p.2)

/-! ### Laid out text splits into its tokens -/

theorem toList_text (l : Layout) :
    l.text.toList = l.front.toList ++ l.pieces.flatMap fun p => p.1.toList ++ p.2.toList := by
  simp [text, List.flatMap_map]

/-- A word does not go on behind its blanks. -/
theorem breaks_of_apart {p : Token × String} {rest : List (Token × String)}
    (hp : p.1.IsBindable) (hblank : Text.IsBlanks p.2)
    (hapart : ∀ q ∈ rest.head?, Token.Apart p q) (hlegal : ∀ q ∈ rest, q.1.IsLegal) :
    Breaks (p.2.toList ++ rest.flatMap fun q => q.1.toList ++ q.2.toList) := by
  cases hw : p.2.toList with
  | cons c w =>
      have hc : c ∈ p.2.toList := by simp [hw]
      exact breaks_cons (.inl (hblank c hc)) _
  | nil =>
      have hempty : p.2 = "" := by simpa using hw
      cases rest with
      | nil => exact breaks_nil
      | cons q rest =>
          -- without a blank between, the token behind can only be a parenthesis
          have hq : ¬q.1.IsBindable := fun hq => hapart q rfl hp hq hempty
          obtain hopen | hclose | hword := hlegal q List.mem_cons_self
          · simpa [hopen] using breaks_cons (.inr (.inl rfl)) _
          · simpa [hclose] using breaks_cons (.inr (.inr rfl)) _
          · exact absurd hword.isBindable hq

theorem tokenizeChars_pieces {pieces : List (Token × String)}
    (hlegal : ∀ p ∈ pieces, p.1.IsLegal) (hblank : ∀ p ∈ pieces, Text.IsBlanks p.2)
    (hapart : pieces.IsChain Token.Apart) :
    tokenizeChars (pieces.flatMap fun p => p.1.toList ++ p.2.toList) = pieces.map Prod.fst := by
  induction pieces with
  | nil => rfl
  | cons p rest ih =>
      obtain ⟨hp, hlegal⟩ := List.forall_mem_cons.mp hlegal
      obtain ⟨hw, hblank⟩ := List.forall_mem_cons.mp hblank
      obtain ⟨hnext, hapart⟩ := List.isChain_cons.mp hapart
      have hrest := ih hlegal hblank hapart
      rw [List.flatMap_cons, List.append_assoc, List.map_cons]
      obtain hopen | hclose | hword := hp
      · rw [hopen]
        show tokenizeChars ('(' :: (p.2.toList ++ _)) = _
        rw [tokenizeChars_paren (.inl rfl), tokenizeChars_blanks hw, hrest]
        rfl
      · rw [hclose]
        show tokenizeChars (')' :: (p.2.toList ++ _)) = _
        rw [tokenizeChars_paren (.inr rfl), tokenizeChars_blanks hw, hrest]
        rfl
      · rw [tokenizeChars_word hword (breaks_of_apart hword.isBindable hw hnext hlegal),
          tokenizeChars_blanks hw, hrest]

/-- **Whatever the blanks, laid out text splits into its tokens.** -/
theorem tokenize_text (l : Layout) : tokenize l.text = l.tokens := by
  rw [tokenize, toList_text, tokenizeChars_blanks l.front_blank]
  exact tokenizeChars_pieces l.legal l.blank l.apart

/-! ### More text on the left -/

/-- No text at all. -/
def empty : Layout where
  front := ""
  pieces := []
  front_blank := Text.isBlanks_empty
  legal := nofun
  blank := nofun
  apart := .nil

/-- One more blank in front. -/
def indent (l : Layout) (c : Char) (hc : Text.isBlank c = true) : Layout :=
  { l with
    front := String.singleton c ++ l.front
    front_blank := by
      intro d hd
      rw [String.toList_append, String.toList_singleton] at hd
      rcases List.mem_cons.mp hd with rfl | hd
      · exact hc
      · exact l.front_blank d hd }

/-- One more token in front.  If it is a word, then the text must not go on with its run. -/
def prepend (l : Layout) (t : Token) (ht : t.IsLegal)
    (hbreaks : t.IsBindable → Breaks l.text.toList) : Layout where
  front := ""
  pieces := (t, l.front) :: l.pieces
  front_blank := Text.isBlanks_empty
  legal := List.forall_mem_cons.mpr ⟨ht, l.legal⟩
  blank := List.forall_mem_cons.mpr ⟨l.front_blank, l.blank⟩
  apart := by
    refine List.isChain_cons.mpr ⟨fun q hq htb hqb hempty => ?_, l.apart⟩
    -- the text would start with the first character of the word `q.1`
    obtain ⟨rest, hpieces⟩ : ∃ rest, l.pieces = q :: rest := List.head?_eq_some_iff.mp hq
    have hword : q.1.IsWord := (l.legal q (by simp [hpieces])).isWord hqb
    obtain ⟨c, cs, hcs⟩ : ∃ c cs, q.1.toList = c :: cs :=
      List.exists_cons_of_ne_nil (by simpa using hword.1)
    have hhead : c ∈ l.text.toList.head? := by
      have hempty : l.front = "" := hempty
      rw [toList_text, hempty, hpieces, List.flatMap_cons, hcs]
      rfl
    exact hword.2 c (by simp [hcs]) (hbreaks htb c hhead)

section Fields

variable (l : Layout) {c : Char} (hc : Text.isBlank c = true) {t : Token} (ht : t.IsLegal)
  (hbreaks : t.IsBindable → Breaks l.text.toList)

@[simp] theorem text_indent : (l.indent c hc).text = String.singleton c ++ l.text := by
  simp [text, indent, String.append_assoc]

@[simp] theorem tokens_indent : (l.indent c hc).tokens = l.tokens := rfl

@[simp] theorem text_prepend : (l.prepend t ht hbreaks).text = t ++ l.text := by
  simp [text, prepend, String.append_assoc]

@[simp] theorem tokens_prepend : (l.prepend t ht hbreaks).tokens = t :: l.tokens := rfl

end Fields

end Layout

/-! ### Every text is laid out -/

/-- The characters are written by a layout of the tokens. -/
def LaidOut (cs : List Char) (tokens : List Token) : Prop :=
  ∃ l : Layout, l.text.toList = cs ∧ l.tokens = tokens

theorem LaidOut.blank {c : Char} (hc : Text.isBlank c = true) {cs : List Char}
    {tokens : List Token} (h : LaidOut cs tokens) : LaidOut (c :: cs) tokens := by
  obtain ⟨l, rfl, rfl⟩ := h
  exact ⟨l.indent c hc, by simp, by simp⟩

theorem LaidOut.paren {c : Char} (hc : c = '(' ∨ c = ')') {cs : List Char} {tokens : List Token}
    (h : LaidOut cs tokens) : LaidOut (c :: cs) (String.singleton c :: tokens) := by
  obtain ⟨l, rfl, rfl⟩ := h
  have hparen : String.singleton c = "(" ∨ String.singleton c = ")" := by
    rcases hc with rfl | rfl
    · exact .inl rfl
    · exact .inr rfl
  have hlegal : Token.IsLegal (String.singleton c) := hparen.imp_right .inl
  have hnot : ¬Token.IsBindable (String.singleton c) := fun hb => hparen.elim hb.1 hb.2
  exact ⟨l.prepend _ hlegal (absurd · hnot), by simp, by simp⟩

/-- Closing a run that does not go on makes a token of it. -/
theorem LaidOut.close {run cs : List Char} (hrun : ∀ c ∈ run, ¬IsBreak c) (hcs : Breaks cs)
    {tokens : List Token} (h : LaidOut cs tokens) : LaidOut (run ++ cs) (close run tokens) := by
  by_cases hempty : run = []
  · rw [Token.close, if_pos hempty, hempty]
    exact h
  · obtain ⟨l, rfl, rfl⟩ := h
    have hword : Token.IsWord (String.ofList run) :=
      ⟨by simpa using hempty, by rwa [String.toList_ofList]⟩
    have hlegal : Token.IsLegal (String.ofList run) := .inr (.inr hword)
    rw [Token.close, if_neg hempty]
    exact ⟨l.prepend _ hlegal fun _ => hcs, by simp, by simp⟩

/-- The text behind the open run is laid out, and the run does not go on in it. -/
theorem exists_scanned_run (cs : List Char) :
    ∃ behind, cs = (scanned cs).1 ++ behind ∧ Breaks behind ∧ LaidOut behind (scanned cs).2 := by
  induction cs with
  | nil => exact ⟨[], rfl, breaks_nil, .empty, rfl, rfl⟩
  | cons c cs ih =>
      obtain ⟨behind, hcs, hbreaks, hlaid⟩ := ih
      have hclosed : LaidOut cs (tokenizeChars cs) := by
        have hrun := (isLegalState_scanned cs).1
        rw [tokenizeChars_eq]
        nth_rewrite 1 [hcs]
        exact hlaid.close hrun hbreaks
      by_cases hblank : Text.isBlank c = true
      · rw [scanned_blank hblank]
        exact ⟨c :: cs, rfl, breaks_cons (.inl hblank) cs, hclosed.blank hblank⟩
      · by_cases hparen : c = '(' ∨ c = ')'
        · rw [scanned_paren hparen]
          exact ⟨c :: cs, rfl, breaks_cons (.inr hparen) cs, hclosed.paren hparen⟩
        · rw [scanned_other (not_or.mpr ⟨hblank, hparen⟩)]
          exact ⟨behind, congrArg (List.cons c) hcs, hbreaks, hlaid⟩

/-- **Every text is laid out with the tokens it splits into.** -/
theorem exists_layout (source : String) :
    ∃ l : Layout, l.text = source ∧ l.tokens = tokenize source := by
  obtain ⟨behind, hsource, hbreaks, hlaid⟩ := exists_scanned_run source.toList
  obtain ⟨l, htext, htokens⟩ := hlaid.close (isLegalState_scanned source.toList).1 hbreaks
  refine ⟨l, ?_, htokens⟩
  rw [← String.toList_inj, htext, ← hsource]

/-! ### Words between blanks -/

namespace Text

/-- Set a character off by blanks wherever it stands. -/
def setOff (p : Char) (cs : List Char) : List Char :=
  cs.flatMap fun c => if c = p then [' ', c, ' '] else [c]

/-- The words between blanks. -/
def words (cs : List Char) : List String :=
  ((cs.splitOnP isBlank).filter fun w => !w.isEmpty).map String.ofList

end Text

/-- Splitting at blanks keeps the open run in front, and finds the tokens behind it. -/
theorem exists_splitOnP_scanned (cs : List Char) :
    ∃ parts, (Text.setOff ')' (Text.setOff '(' cs)).splitOnP Text.isBlank =
        (scanned cs).1 :: parts ∧
      (parts.filter fun w => !w.isEmpty).map String.ofList = (scanned cs).2 := by
  induction cs with
  | nil => exact ⟨[], rfl, rfl⟩
  | cons c cs ih =>
      obtain ⟨parts, hsplit, hparts⟩ := ih
      have hclosed : (((scanned cs).1 :: parts).filter fun w => !w.isEmpty).map String.ofList =
          tokenizeChars cs := by
        rw [tokenizeChars_eq, Token.close, ← hparts]
        cases (scanned cs).1 <;> simp
      have hspace : Text.isBlank ' ' = true := rfl
      by_cases hparen : c = '(' ∨ c = ')'
      · have hblank : Text.isBlank c = false := by
          rcases hparen with rfl | rfl <;> rfl
        have hchars : Text.setOff ')' (Text.setOff '(' (c :: cs)) =
            ' ' :: c :: ' ' :: Text.setOff ')' (Text.setOff '(' cs) := by
          rcases hparen with rfl | rfl <;> rfl
        rw [scanned_paren hparen, hchars]
        refine ⟨[c] :: (scanned cs).1 :: parts, ?_, ?_⟩
        · simp [List.splitOnP_cons_eq_if_modifyHead, hspace, hblank, hsplit]
        · rw [List.filter_cons_of_pos rfl, List.map_cons, hclosed]
          rfl
      · have hchars : Text.setOff ')' (Text.setOff '(' (c :: cs)) =
            c :: Text.setOff ')' (Text.setOff '(' cs) := by
          rw [not_or] at hparen
          simp [Text.setOff, hparen.1, hparen.2]
        rw [hchars, List.splitOnP_cons_eq_if_modifyHead, hsplit]
        by_cases hblank : Text.isBlank c = true
        · rw [scanned_blank hblank, if_pos hblank]
          exact ⟨(scanned cs).1 :: parts, rfl, hclosed⟩
        · rw [scanned_other (not_or.mpr ⟨hblank, hparen⟩), if_neg hblank]
          exact ⟨parts, rfl, hparts⟩

/-- The tokens are the words between blanks once the parentheses are set off. -/
theorem tokenize_eq_words (source : String) :
    tokenize source = Text.words (Text.setOff ')' (Text.setOff '(' source.toList)) := by
  obtain ⟨parts, hsplit, hparts⟩ := exists_splitOnP_scanned source.toList
  rw [tokenize, tokenizeChars_eq, Text.words, hsplit, ← hparts, Token.close]
  cases (scanned source.toList).1 <;> simp

/-- **Splitting into tokens inverts layout.**  Every token that a text is split into is legal,
that is, a parenthesis or a run of characters that is not empty and holds neither blanks nor
parentheses; and the text is a layout of these tokens.  Conversely, whatever legal tokens are
laid out, with any blanks around them and at least one between two neighbours that are not
parentheses, splitting the text gives these tokens.  They are also the words that are left
between blanks once every parenthesis is set off by blanks. -/
theorem tokenize_inverts_layout :
    (∀ source, (∀ t ∈ tokenize source, t.IsLegal) ∧
      ∃ l : Layout, l.text = source ∧ l.tokens = tokenize source) ∧
    (∀ l : Layout, tokenize l.text = l.tokens) ∧
    ∀ source,
      tokenize source = Text.words (Text.setOff ')' (Text.setOff '(' source.toList)) :=
  ⟨fun source => ⟨fun _ ht => isLegal_of_mem_tokenize ht, exists_layout source⟩,
    Layout.tokenize_text, tokenize_eq_words⟩

end FrameLisp
