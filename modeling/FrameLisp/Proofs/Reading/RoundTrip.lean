/-
FrameLisp/Proofs/Reading/RoundTrip.lean

Rendering undoes reading.

The text of an expression that was read, split into tokens again, need not be the
tokens it was read from: quotes may have been written with a keyword or with blanks
after the mark.  But the tokens of the text are again tokens that derive the
expression, so reading the text gives the expression back.  The argument goes through
three facts, each by induction on expressions:

* what was read is `Legible`: its names are words, its numbers finite, and its lists
  hold nothing behind a special form;
* the text of a legible expression splits into the tokens `Expr.tokens`, which are
  spelt out from the expression directly;
* these tokens derive the expression.

Text between quotes is excluded because it is rendered without them, and an infinite
number because its text is a name.
-/
import FrameLisp.Proofs.Number.Bits
import FrameLisp.Proofs.Reading.Acceptance
import FrameLisp.Proofs.Reading.Words

namespace FrameLisp

open Token

/-! ### Expressions that can be written -/

mutual

/-- The nodes of an expression at any depth, itself included. -/
def Expr.nodes : Expr → List Expr
  | .list items => .list items :: Expr.nodesItems items
  | .define x e => .define x e :: Expr.nodes e
  | .assign x e => .assign x e :: Expr.nodes e
  | .lambda ps e => .lambda ps e :: Expr.nodes e
  | .cond a b c => .cond a b c :: (Expr.nodes a ++ (Expr.nodes b ++ Expr.nodes c))
  | .quote e => .quote e :: Expr.nodes e
  | e => [e]

/-- The nodes of the items of a list. -/
def Expr.nodesItems : List Expr → List Expr
  | [] => []
  | e :: es => Expr.nodes e ++ Expr.nodesItems es

end

/-- Neither text nor an infinite number. -/
def Expr.IsPlain : Expr → Prop
  | .text _ => False
  | .number x => ∀ negative, Number.datum x ≠ .infinite negative
  | _ => True

mutual

/-- An expression whose text can be read. -/
def Expr.Legible : Expr → Prop
  | .number x => Number.pattern x < Number.infinityPattern
  | .symbol x => IsWord x ∧ IsSymbol x
  | .list items => FormAlone items ∧ Expr.LegibleItems items
  | .define x e => IsWord x ∧ Expr.Legible e
  | .assign x e => IsWord x ∧ Expr.Legible e
  | .lambda ps e => (∀ p ∈ ps, IsWord p) ∧ Expr.Legible e
  | .cond a b c => Expr.Legible a ∧ Expr.Legible b ∧ Expr.Legible c
  | .quote e => Expr.Legible e
  | _ => False

/-- `Legible`, item by item. -/
def Expr.LegibleItems : List Expr → Prop
  | [] => True
  | e :: es => Expr.Legible e ∧ Expr.LegibleItems es

end

/-! ### What was read is legible -/

/-- What is glued to a quote mark is a word. -/
theorem Token.IsLegal.of_glued {r : Token} (h : IsLegal ("'" ++ r)) (hr : r ≠ "") :
    r.IsLegal := by
  have hword : IsWord ("'" ++ r) := by
    apply h.isWord
    constructor
    · intro heq
      simpa using congrArg String.toList heq
    · intro heq
      simpa using congrArg String.toList heq
  refine .inr (.inr ⟨hr, fun c hc => hword.2 c ?_⟩)
  rw [String.toList_append]
  exact List.mem_append_right _ hc

theorem Number.finite_of_ofToken? {t : Token} {x : Float} (h : Number.ofToken? t = some x)
    (hplain : (Expr.number x).IsPlain) : Number.pattern x < Number.infinityPattern := by
  refine Nat.lt_of_le_of_ne (Number.pattern_le_of_ofToken? h) fun heq => ?_
  refine hplain (Number.isNegative x) ?_
  rw [Number.datum, if_neg (by rw [heq]; exact Nat.lt_irrefl _), if_pos heq]

mutual

theorem Derives.legible {ts : List Token} {e : Expr} :
    Derives ts e → (∀ t ∈ ts, t.IsLegal) → (∀ d ∈ e.nodes, d.IsPlain) → e.Legible
  | .number hx, _, hplain => Number.finite_of_ofToken? hx (hplain _ (List.mem_singleton_self _))
  | .text, _, hplain => (hplain _ (List.mem_singleton_self _)).elim
  | .symbol ht, hlegal, _ => ⟨(hlegal _ (List.mem_singleton_self _)).isWord ht.bindable, ht⟩
  | .quoteMark he, hlegal, hplain => by
      rw [Expr.nodes] at hplain
      exact he.legible (List.forall_mem_cons.mp hlegal).2 (List.forall_mem_cons.mp hplain).2
  | .glued hr he, hlegal, hplain => by
      rw [Expr.nodes] at hplain
      obtain ⟨hglued, htail⟩ := List.forall_mem_cons.mp hlegal
      refine he.legible ?_ (List.forall_mem_cons.mp hplain).2
      exact List.forall_mem_cons.mpr ⟨hglued.of_glued hr, htail⟩
  | .quote he, hlegal, hplain => by
      rw [Expr.nodes] at hplain
      exact he.legible (List.forall_mem_cons.mp hlegal).2 (List.forall_mem_cons.mp hplain).2
  | .cond ha hb hc, hlegal, hplain => by
      simp only [Expr.nodes, List.forall_mem_cons, List.forall_mem_append] at hlegal hplain
      obtain ⟨-, la, lb, lc⟩ := hlegal
      obtain ⟨-, pa, pb, pc⟩ := hplain
      exact ⟨ha.legible la pa, hb.legible lb pb, hc.legible lc pc⟩
  | .define hx he, hlegal, hplain => by
      simp only [Expr.nodes, List.forall_mem_cons] at hlegal hplain
      exact ⟨hlegal.2.1.isWord hx, he.legible hlegal.2.2 hplain.2⟩
  | .assign hx he, hlegal, hplain => by
      simp only [Expr.nodes, List.forall_mem_cons] at hlegal hplain
      exact ⟨hlegal.2.1.isWord hx, he.legible hlegal.2.2 hplain.2⟩
  | .lambda hps he, hlegal, hplain => by
      simp only [Expr.nodes, List.forall_mem_cons, List.forall_mem_append] at hlegal hplain
      obtain ⟨-, -, lps, -, le⟩ := hlegal
      exact ⟨fun p hp => (lps p hp).isWord (hps p hp), he.legible le hplain.2⟩
  | .list hes halone, hlegal, hplain => by
      simp only [Expr.nodes, List.forall_mem_cons, List.forall_mem_append] at hlegal hplain
      exact ⟨halone, hes.legible hlegal.2.1 hplain.2⟩

theorem DerivesAll.legible {ts : List Token} {es : List Expr} :
    DerivesAll ts es → (∀ t ∈ ts, t.IsLegal) → (∀ d ∈ Expr.nodesItems es, d.IsPlain) →
      Expr.LegibleItems es
  | .nil, _, _ => trivial
  | .cons he hes, hlegal, hplain => by
      simp only [Expr.nodesItems, List.forall_mem_append] at hlegal hplain
      exact ⟨he.legible hlegal.1 hplain.1, hes.legible hlegal.2 hplain.2⟩

end

/-! ### The tokens of a text -/

mutual

/-- The tokens that the text of an expression splits into. -/
def Expr.tokens : Expr → List Token
  | .number x => [Number.text x]
  | .symbol x => [x]
  | .list items => "(" :: (Expr.tokensItems items ++ [")"])
  | .define x e => "define" :: x :: Expr.tokens e
  | .assign x e => "set!" :: x :: Expr.tokens e
  | .lambda ps e => "lambda" :: "(" :: (ps ++ ")" :: Expr.tokens e)
  | .cond a b c => "if" :: (Expr.tokens a ++ (Expr.tokens b ++ Expr.tokens c))
  | .quote e => glue (Expr.tokens e)
  | _ => []

/-- The tokens of the items of a list. -/
def Expr.tokensItems : List Expr → List Token
  | [] => []
  | e :: es => Expr.tokens e ++ Expr.tokensItems es

end

/-! #### Words in a text -/

theorem Number.not_isBreak {c : Char} (hc : IsLiteralChar c) : ¬IsBreak c := by
  obtain hdigit | hmem := hc
  · have hcode : 48 ≤ c.toNat ∧ c.toNat ≤ 57 := by
      simpa [Char.isDigit, UInt32.le_iff_toNat_le] using hdigit
    rintro (hblank | rfl | rfl)
    · simp [Text.isBlank] at hblank
      omega
    · exact absurd hdigit (by decide)
    · exact absurd hdigit (by decide)
  · simp only [List.mem_cons, List.not_mem_nil, or_false] at hmem
    rcases hmem with rfl | rfl | rfl | rfl | rfl <;> decide

theorem Number.isWord_text {x : Float} (hx : pattern x < infinityPattern) :
    Token.IsWord (text x) := by
  have hread := ofToken?_text hx
  constructor
  · intro hempty
    rw [hempty] at hread
    cases hread
  · exact fun c hc => not_isBreak (isLiteralChar_of_ofToken? hread c hc)

theorem tokenizeChars_params {ps : List String} (hps : ∀ p ∈ ps, IsWord p) (cs : List Char) :
    tokenizeChars ((" ".intercalate ps).toList ++ ')' :: cs) = ps ++ ")" :: tokenizeChars cs := by
  have hclose : tokenizeChars (')' :: cs) = ")" :: tokenizeChars cs :=
    tokenizeChars_paren (.inr rfl) cs
  match ps with
  | [] => exact hclose
  | [p] =>
      have hbreak : Breaks (')' :: cs) := breaks_cons (by decide) cs
      rw [String.intercalate_singleton, tokenizeChars_word (hps p (List.mem_cons_self ..)) hbreak,
        hclose]
      rfl
  | p :: q :: ps =>
      obtain ⟨hp, hps⟩ := List.forall_mem_cons.mp hps
      have hsplit : (" ".intercalate (p :: q :: ps)).toList ++ ')' :: cs =
          p.toList ++ ' ' :: ((" ".intercalate (q :: ps)).toList ++ ')' :: cs) := by
        simp [String.intercalate_cons_cons]
      rw [hsplit, tokenizeChars_word_blank hp, tokenizeChars_params hps]
      rfl

/-! #### The first character and the first token -/

theorem Token.IsWord.head {t : Token} (h : t.IsWord) :
    ∃ c cs, t.toList = c :: cs ∧ (c = '(' ∨ ¬IsBreak c) := by
  obtain ⟨c, cs, hcs⟩ := List.exists_cons_of_ne_nil (l := t.toList) (by simpa using h.1)
  exact ⟨c, cs, hcs, .inr (h.2 c (by simp [hcs]))⟩

/-- A quote mark put in front of the text is glued to it or stands before a
parenthesis. -/
theorem Expr.Legible.render_head {e : Expr} (h : e.Legible) :
    ∃ c cs, e.render.toList = c :: cs ∧ (c = '(' ∨ ¬IsBreak c) := by
  cases e with
  | number x => exact (Number.isWord_text h).head
  | symbol x => exact h.1.head
  | list items => exact ⟨'(', _, by simp [Expr.render]; rfl, .inl rfl⟩
  | define x e => exact ⟨'d', _, by simp [Expr.render]; rfl, .inr (by decide)⟩
  | assign x e => exact ⟨'s', _, by simp [Expr.render]; rfl, .inr (by decide)⟩
  | lambda ps e => exact ⟨'l', _, by simp [Expr.render]; rfl, .inr (by decide)⟩
  | cond a b c => exact ⟨'i', _, by simp [Expr.render]; rfl, .inr (by decide)⟩
  | quote e => exact ⟨'\'', _, by simp [Expr.render]; rfl, .inr (by decide)⟩
  | _ => exact h.elim

theorem glue_append {ts : List Token} (hts : ts ≠ []) (us : List Token) :
    glue (ts ++ us) = glue ts ++ us := by
  obtain ⟨t, ts, rfl⟩ := List.exists_cons_of_ne_nil hts
  simp only [List.cons_append, glue]
  split <;> rfl

theorem glue_head (ts : List Token) : ∃ t us, glue ts = t :: us ∧ t ≠ "" := by
  cases ts with
  | nil => exact ⟨_, _, rfl, by decide⟩
  | cons t ts =>
      rw [glue]
      split
      · exact ⟨_, _, rfl, by decide⟩
      · exact ⟨_, _, rfl, by simp⟩

theorem Expr.Legible.tokens_head {e : Expr} (h : e.Legible) :
    ∃ t ts, e.tokens = t :: ts ∧ t ≠ "" := by
  cases e with
  | number x => exact ⟨_, _, rfl, (Number.isWord_text h).1⟩
  | symbol x => exact ⟨_, _, rfl, h.1.1⟩
  | list items => exact ⟨_, _, rfl, by decide⟩
  | define x e => exact ⟨_, _, rfl, by decide⟩
  | assign x e => exact ⟨_, _, rfl, by decide⟩
  | lambda ps e => exact ⟨_, _, rfl, by decide⟩
  | cond a b c => exact ⟨_, _, rfl, by decide⟩
  | quote e => exact glue_head e.tokens
  | _ => exact h.elim

/-! #### The whole text -/

mutual

theorem tokenizeChars_render : (e : Expr) → e.Legible → ∀ {cs : List Char}, Breaks cs →
    tokenizeChars (e.render.toList ++ cs) = e.tokens ++ tokenizeChars cs
  | .number x, h, cs, hcs => tokenizeChars_word (Number.isWord_text h) hcs
  | .symbol x, h, cs, hcs => tokenizeChars_word h.1 hcs
  | .list items, h, cs, _ => by
      have htext : (Expr.list items).render.toList ++ cs =
          '(' :: ((String.join (Expr.renderItems items)).toList ++ ')' :: cs) := by
        simp [Expr.render]
      rw [htext, tokenizeChars_paren (.inl rfl), tokenizeChars_renderItems items h.2,
        tokenizeChars_paren (.inr rfl), Expr.tokens, List.cons_append, List.append_assoc]
      rfl
  | .define x e, h, cs, hcs => by
      have htext : (Expr.define x e).render.toList ++ cs =
          Keyword.define.name.toList ++ ' ' :: (x.toList ++ ' ' :: (e.render.toList ++ cs)) := by
        simp [Expr.render, Keyword.name]
      rw [htext, tokenizeChars_word_blank (Keyword.isWord_name _), tokenizeChars_word_blank h.1,
        tokenizeChars_render e h.2 hcs]
      rfl
  | .assign x e, h, cs, hcs => by
      have htext : (Expr.assign x e).render.toList ++ cs =
          Keyword.assign.name.toList ++ ' ' :: (x.toList ++ ' ' :: (e.render.toList ++ cs)) := by
        simp [Expr.render, Keyword.name]
      rw [htext, tokenizeChars_word_blank (Keyword.isWord_name _), tokenizeChars_word_blank h.1,
        tokenizeChars_render e h.2 hcs]
      rfl
  | .lambda ps e, h, cs, hcs => by
      have htext : (Expr.lambda ps e).render.toList ++ cs = Keyword.lambda.name.toList ++ ' ' ::
          '(' :: ((" ".intercalate ps).toList ++ ')' :: ' ' :: (e.render.toList ++ cs)) := by
        simp [Expr.render, Expr.renderParams, Keyword.name]
      rw [htext, tokenizeChars_word_blank (Keyword.isWord_name _), tokenizeChars_paren (.inl rfl),
        tokenizeChars_params h.1, tokenizeChars_blank (by decide), tokenizeChars_render e h.2 hcs,
        Expr.tokens, List.cons_append, List.cons_append, List.append_assoc]
      rfl
  | .cond a b c, h, cs, hcs => by
      have htext : (Expr.cond a b c).render.toList ++ cs = Keyword.cond.name.toList ++ ' ' ::
          (a.render.toList ++ ' ' :: (b.render.toList ++ ' ' :: (c.render.toList ++ cs))) := by
        simp [Expr.render, Keyword.name]
      have hblank : ∀ cs, Breaks (' ' :: cs) := breaks_cons (by decide)
      rw [htext, tokenizeChars_word_blank (Keyword.isWord_name _),
        tokenizeChars_render a h.1 (hblank _), tokenizeChars_blank (by decide),
        tokenizeChars_render b h.2.1 (hblank _), tokenizeChars_blank (by decide),
        tokenizeChars_render c h.2.2 hcs, Expr.tokens]
      simp [Keyword.name]
  | .quote e, h, cs, hcs => by
      have htext : (Expr.quote e).render.toList ++ cs = '\'' :: (e.render.toList ++ cs) := by
        simp [Expr.render]
      -- the mark joins a word behind it and stands alone before a parenthesis
      obtain ⟨c, rest, hhead, hc⟩ := Expr.Legible.render_head (e := e) h
      obtain ⟨t, ts, htokens, -⟩ := Expr.Legible.tokens_head (e := e) h
      have hrender := tokenizeChars_render e h hcs
      rw [hhead, List.cons_append] at hrender
      rw [htext, hhead, List.cons_append, tokenizeChars_quote hc, hrender, glue_append, Expr.tokens]
      rw [htokens]
      exact List.cons_ne_nil t ts

theorem tokenizeChars_renderItems : (es : List Expr) → Expr.LegibleItems es → ∀ cs : List Char,
    tokenizeChars ((String.join (Expr.renderItems es)).toList ++ cs) =
      Expr.tokensItems es ++ tokenizeChars cs
  | [], _, cs => rfl
  | e :: es, h, cs => by
      have htext : (String.join (Expr.renderItems (e :: es))).toList ++ cs =
          ' ' :: (e.render.toList ++ ' ' :: ((String.join (Expr.renderItems es)).toList ++ cs)) := by
        simp [Expr.renderItems]
      rw [htext, tokenizeChars_blank (by decide),
        tokenizeChars_render e h.1 (breaks_cons (by decide) _), tokenizeChars_blank (by decide),
        tokenizeChars_renderItems es h.2, Expr.tokensItems, List.append_assoc]

end

theorem tokenize_render {e : Expr} (h : e.Legible) : tokenize e.render = e.tokens := by
  have htokens := tokenizeChars_render e h breaks_nil
  rw [List.append_nil, show tokenizeChars [] = [] from rfl, List.append_nil] at htokens
  exact htokens

/-! ### The tokens derive the expression -/

mutual

theorem derives_tokens : (e : Expr) → e.Legible → Derives e.tokens e
  | .number x, h => .number (Number.ofToken?_text h)
  | .symbol x, h => .symbol h.2
  | .list items, h => .list (derivesAll_tokensItems items h.2) h.1
  | .define x e, h => .define h.1.isBindable (derives_tokens e h.2)
  | .assign x e, h => .assign h.1.isBindable (derives_tokens e h.2)
  | .lambda ps e, h => .lambda (fun p hp => (h.1 p hp).isBindable) (derives_tokens e h.2)
  | .cond a b c, h =>
      .cond (derives_tokens a h.1) (derives_tokens b h.2.1) (derives_tokens c h.2.2)
  | .quote e, h => by
      have he := derives_tokens e h
      obtain ⟨t, ts, htokens, ht⟩ := Expr.Legible.tokens_head (e := e) h
      rw [Expr.tokens]
      rw [htokens] at he ⊢
      rw [glue]
      split
      · exact .quoteMark he
      · exact .glued ht he

theorem derivesAll_tokensItems : (es : List Expr) → Expr.LegibleItems es →
    DerivesAll (Expr.tokensItems es) es
  | [], _ => .nil
  | e :: es, h => .cons (derives_tokens e h.1) (derivesAll_tokensItems es h.2)

end

/-! ### Rendering undoes reading -/

/-- A program of one expression other than `nil`, with neither text nor an infinite
number in it at any depth, is read again from the text of its expression, with the
same limit and the same result. -/
theorem readOne_render {limit : Nat} {source : String} {e : Expr}
    (hread : readOne limit source = .ok e) (hnil : e ≠ .nil)
    (hplain : ∀ d ∈ e.nodes, d.IsPlain) : readOne limit e.render = .ok e := by
  have hsource : tokenize source ≠ [] := by
    intro hblank
    rw [readOne_blank hblank] at hread
    cases hread
    exact hnil rfl
  obtain ⟨c, hc, hderives, hlimit⟩ := readExpr_sound ((readOne_ok_iff hsource e).mp hread)
  rw [List.append_nil] at hc
  have hlegible : e.Legible :=
    hderives.legible (fun t ht => isLegal_of_mem_tokenize (hc ▸ ht)) hplain
  have htokens := tokenize_render hlegible
  have hderives' := derives_tokens e hlegible
  have hrender : tokenize e.render ≠ [] := by
    rw [htokens]
    exact hderives'.ne_nil
  rw [readOne_ok_iff hrender, htokens]
  have hagain := hderives'.readExpr_append limit hlimit []
  rwa [List.append_nil] at hagain

/-- A quote mark as a name, quotes written with the keyword, and a negative zero. -/
theorem readOne_render_quotes :
    readOne 9 "(define ' quote (quote -0.0))" =
        .ok (.list [.define "'" (.quote (.list [.quote (.number (Number.ofPattern true 0))]))]) ∧
      readOne 9 (Expr.render
          (.list [.define "'" (.quote (.list [.quote (.number (Number.ofPattern true 0))]))])) =
        .ok (.list [.define "'" (.quote (.list [.quote (.number (Number.ofPattern true 0))]))]) := by
  have htokens : tokenize "(define ' quote (quote -0.0))" =
      ["(", "define", "'", "quote", "(", "quote", "-0.0", ")", ")"] := by decide
  have hnumber : Number.ofToken? "-0.0" = some (Number.ofPattern true 0) := rfl
  have hquotes : Derives ["(", "quote", "-0.0", ")"]
      (.list [.quote (.number (Number.ofPattern true 0))]) :=
    .list (.cons (.quote (.number hnumber)) .nil) (by simp [FormAlone])
  have hderives : Derives ["(", "define", "'", "quote", "(", "quote", "-0.0", ")", ")"]
      (.list [.define "'" (.quote (.list [.quote (.number (Number.ofPattern true 0))]))]) :=
    .list (.cons (.define ⟨by decide, by decide⟩ (.quote hquotes)) .nil) (by simp [FormAlone])
  have hread : readOne 9 "(define ' quote (quote -0.0))" =
      .ok (.list [.define "'" (.quote (.list [.quote (.number (Number.ofPattern true 0))]))]) := by
    rw [readOne_ok_iff (by rw [htokens]; exact List.cons_ne_nil _ _), htokens]
    exact hderives.readExpr_append 9 (by decide) []
  have hzero : ∀ negative, Number.datum (Number.ofPattern true 0) ≠ .infinite negative := by
    decide
  refine ⟨hread, readOne_render hread nofun ?_⟩
  simpa [Expr.nodes, Expr.nodesItems, Expr.IsPlain] using hzero

end FrameLisp
