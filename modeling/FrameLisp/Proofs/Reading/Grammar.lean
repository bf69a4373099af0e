/-
FrameLisp/Proofs/Reading/Grammar.lean

The grammar of expressions.

`Derives ts e` says that the tokens `ts`, all of them and in this order, make up the
expression `e`.  Tokens are any texts whatever.  A quote mark may stand alone or be
glued to the token after it, keywords start a special form wherever they stand, and
names are taken as they are.  A list that starts with a special form has nothing
else in it (`FormAlone`).

The grammar does not count.  How deep the reader nests is a matter of the expression
and not of the way it is written, so it is measured on the expression: `height`.
With it the two sides meet exactly,

    readExpr limit ts = (.ok e, rest)
      ↔  ts = c ++ rest  for tokens  c  that derive  e,  and  height e ≤ limit

(`readExpr_ok_iff`).  What the reader does is settled by the token in front, in one of
five ways (`Token.begins`), and everything about whole expressions is derived from
these.  Reading from left to right has no choice anywhere, so the grammar is
unambiguous: of all prefixes of a list of tokens at most one derives an expression,
and it derives only one (`Derives.unique`).
-/
import FrameLisp.Proofs.Reading.Steps

namespace FrameLisp

/-! ### How deep expressions nest -/

mutual

/-- How many expressions are nested in each other, this one included. -/
def Expr.height : Expr → Nat
  | .list items => Expr.heightItems items + 1
  | .define _ e => Expr.height e + 1
  | .assign _ e => Expr.height e + 1
  | .lambda _ body => Expr.height body + 1
  | .cond a b c => max (Expr.height a) (max (Expr.height b) (Expr.height c)) + 1
  | .quote e => Expr.height e + 1
  | _ => 1

/-- The greatest height of the items of a list. -/
def Expr.heightItems : List Expr → Nat
  | [] => 0
  | e :: es => max (Expr.height e) (Expr.heightItems es)

end

/-! ### The rules -/

/-- A special form in front has nothing behind it. -/
def FormAlone (es : List Expr) : Prop :=
  ∀ first rest, es = first :: rest → first.isForm = true → rest = []

mutual

/-- Tokens that make up an expression. -/
inductive Derives : List Token → Expr → Prop
  | number {t x} : Number.ofToken? t = some x → Derives [t] (.number x)
  | text {s} : Derives ["\"" ++ s ++ "\""] (.text s)
  | symbol {t} : t.IsSymbol → Derives [t] (.symbol t)
  | quoteMark {ts e} : Derives ts e → Derives ("'" :: ts) (.quote e)
  | glued {r ts e} : r ≠ "" → Derives (r :: ts) e → Derives (("'" ++ r) :: ts) (.quote e)
  | quote {ts e} : Derives ts e → Derives ("quote" :: ts) (.quote e)
  | cond {ts₁ ts₂ ts₃ a b c} :
      Derives ts₁ a → Derives ts₂ b → Derives ts₃ c →
      Derives ("if" :: (ts₁ ++ (ts₂ ++ ts₃))) (.cond a b c)
  | define {x ts e} :
      Token.IsBindable x → Derives ts e → Derives ("define" :: x :: ts) (.define x e)
  | assign {x ts e} :
      Token.IsBindable x → Derives ts e → Derives ("set!" :: x :: ts) (.assign x e)
  | lambda {ps ts e} :
      (∀ p ∈ ps, Token.IsBindable p) → Derives ts e →
      Derives ("lambda" :: "(" :: (ps ++ ")" :: ts)) (.lambda ps e)
  | list {ts es} :
      DerivesAll ts es → FormAlone es → Derives ("(" :: (ts ++ [")"])) (.list es)

/-- Tokens that make up several expressions, one after the other. -/
inductive DerivesAll : List Token → List Expr → Prop
  | nil : DerivesAll [] []
  | cons {ts₁ ts₂ e es} :
      Derives ts₁ e → DerivesAll ts₂ es → DerivesAll (ts₁ ++ ts₂) (e :: es)

end

theorem FormAlone.nil : FormAlone [] := nofun

/-- Items may be added unless a special form stands alone in front. -/
theorem FormAlone.cons_reverse {done : List Expr} (h : FormAlone done.reverse)
    (hnext : ∀ first, done = [first] → first.isForm = false) (e : Expr) :
    FormAlone (e :: done).reverse := by
  intro first rest heq hform
  rw [List.reverse_cons] at heq
  rcases hdone : done.reverse with _ | ⟨x, xs⟩
  · rw [hdone] at heq
    exact (List.cons.inj heq).2.symm
  · rw [hdone, List.cons_append] at heq
    obtain ⟨rfl, -⟩ := List.cons.inj heq
    have hxs : xs = [] := h x xs hdone hform
    have hlone : done = [x] := by simpa [hxs] using congrArg List.reverse hdone
    rw [hnext x hlone] at hform
    cases hform

theorem Derives.ne_nil {ts : List Token} {e : Expr} (h : Derives ts e) : ts ≠ [] := by
  cases h <;> exact List.cons_ne_nil _ _

/-- Every expression takes at least one token. -/
theorem DerivesAll.length_le {ts : List Token} {es : List Expr} :
    DerivesAll ts es → es.length ≤ ts.length
  | .nil => Nat.le_refl 0
  | .cons he hes => by
      have hpos := List.length_pos_iff.mpr he.ne_nil
      have hle := hes.length_le
      rw [List.length_append, List.length_cons]
      omega

/-! ### How an expression begins -/

/-- How often tokens can be taken, or stripped of a quote mark. -/
def weight : List Token → Nat
  | [] => 0
  | t :: ts => t.length + 1 + weight ts

/-- What the reader does with a token in front: it is an atom, a fault other than the
end of the tokens, the start of a list or of a special form, or a quote mark, which is
a special form that may put something back. -/
inductive Token.Begins (t : Token) : Prop
  | atom {e : Expr} (derives : Derives [t] e) (height : e.height = 1)
      (reads : ∀ limit ts, readExpr (limit + 1) (t :: ts) = (.ok e, ts))
  | fault {cause : ReadFault} (ne : cause ≠ .endOfInput)
      (reads : ∀ limit ts, readExpr (limit + 1) (t :: ts) = (.error (.fault cause), ts))
  | opening (eq : t = "(")
  | keyword {k : Keyword} (eq : t = k.name)
  | mark (back : List Token) (weight : weight back ≤ t.length)
      (derives : ∀ {ts c rest e}, back ++ ts = c ++ rest → Derives c e →
        ∃ c', t :: ts = c' ++ rest ∧ Derives c' (.quote e))
      (reads : ∀ limit ts,
        readExpr (limit + 1) (t :: ts) = ReadM.form (readExpr limit) .quote (back ++ ts))

theorem Token.begins_quoteMark (r : Token) : Token.Begins ("'" ++ r) := by
  by_cases hr : r = ""
  · subst hr
    refine .mark [] (Nat.zero_le _) (fun hc he => ⟨"'" :: _, ?_, .quoteMark he⟩) readExpr_quoteMark
    exact congrArg (List.cons "'") hc
  · refine .mark [r] ?_ (fun hc he => ?_) (readExpr_glued hr)
    · rw [String.length_append]
      exact Nat.le_of_eq (Nat.add_comm r.length 1)
    · -- what was put back is the first token of the expression
      obtain ⟨t, c, rfl⟩ := List.exists_cons_of_ne_nil he.ne_nil
      obtain ⟨rfl, hts⟩ := List.cons.inj hc
      exact ⟨("'" ++ r) :: c, congrArg (List.cons _) hts, .glued hr he⟩

theorem Token.begins (t : Token) : t.Begins := by
  obtain ⟨s, hs⟩ : ∃ s, t.HasShape s := ⟨_, hasShape_shape t⟩
  cases hs with
  | opening => exact .opening rfl
  | closing =>
      refine .fault ?_ readExpr_closing
      exact nofun
  | quoteMark r => exact begins_quoteMark r
  | number hx => exact .atom (.number hx) rfl (readExpr_number hx)
  | text s => exact .atom .text rfl (readExpr_text s)
  | unterminated h₁ h₂ =>
      refine .fault ?_ (readExpr_unterminated (.unterminated h₁ h₂))
      exact nofun
  | keyword k => exact .keyword rfl
  | name ht => exact .atom (.symbol ht) rfl (readExpr_symbol ht)

/-! ### What is read derives -/

/-- The tokens start with some that derive `e`, which nests at most `limit` deep, and
go on with `rest`. -/
def Reads (limit : Nat) (ts : List Token) (e : Expr) (rest : List Token) : Prop :=
  ∃ c, ts = c ++ rest ∧ Derives c e ∧ e.height ≤ limit

namespace ReadM

theorem name_sound {form : String} {ts rest : List Token} {x : String}
    (h : name form ts = (.ok x, rest)) : Token.IsBindable x ∧ ts = x :: rest := by
  cases ts with
  | nil =>
      rw [name_nil] at h
      cases h
  | cons t ts =>
      by_cases ht : t.IsBindable
      · rw [name_cons ht] at h
        cases h
        exact ⟨ht, rfl⟩
      · rw [name_paren ht] at h
        cases h

theorem paramsFrom_sound {done : List String} {ts rest : List Token} {ps : List String}
    (h : paramsFrom done ts = (.ok ps, rest)) :
    ∃ qs, ps = done.reverse ++ qs ∧ (∀ q ∈ qs, Token.IsBindable q) ∧ ts = qs ++ ")" :: rest := by
  induction ts generalizing done with
  | nil => cases h
  | cons t ts ih =>
      rw [paramsFrom] at h
      split at h
      · next ht =>
          cases h
          exact ⟨[], by simp, by simp, by rw [ht]; rfl⟩
      · next hclose =>
          split at h
          · cases h
          · next hopen =>
              obtain ⟨qs, hps, hqs, hts⟩ := ih h
              refine ⟨t :: qs, by simp [hps], ?_, by rw [hts]; rfl⟩
              exact List.forall_mem_cons.mpr ⟨⟨hopen, hclose⟩, hqs⟩

theorem params_sound {ts rest : List Token} {ps : List String}
    (h : params ts = (.ok ps, rest)) :
    (∀ p ∈ ps, Token.IsBindable p) ∧ ts = "(" :: (ps ++ ")" :: rest) := by
  cases ts with
  | nil =>
      rw [params_nil] at h
      cases h
  | cons t ts =>
      by_cases ht : t = "("
      · subst ht
        rw [params_opening] at h
        obtain ⟨qs, rfl, hqs, rfl⟩ := paramsFrom_sound h
        exact ⟨hqs, rfl⟩
      · rw [params_other ht] at h
        cases h

variable {expr : ReadM Expr} {limit : Nat} {ts rest : List Token} {e : Expr}

theorem quote_sound (hexpr : ∀ {ts e rest}, expr ts = (.ok e, rest) → Reads limit ts e rest)
    (h : form expr .quote ts = (.ok e, rest)) :
    ∃ content, e = .quote content ∧ Reads limit ts content rest := by
  obtain ⟨content, rest₁, h₁, h₂⟩ := Run.bind_eq_ok h
  cases h₂
  exact ⟨content, rfl, hexpr h₁⟩

theorem form_sound (hexpr : ∀ {ts e rest}, expr ts = (.ok e, rest) → Reads limit ts e rest)
    {k : Keyword} (h : form expr k ts = (.ok e, rest)) :
    Reads (limit + 1) (k.name :: ts) e rest := by
  cases k with
  | cond =>
      obtain ⟨a, _, ha, h⟩ := Run.bind_eq_ok h
      obtain ⟨b, _, hb, h⟩ := Run.bind_eq_ok h
      obtain ⟨c, _, hc, h⟩ := Run.bind_eq_ok h
      cases h
      obtain ⟨ts₁, rfl, da, la⟩ := hexpr ha
      obtain ⟨ts₂, rfl, db, lb⟩ := hexpr hb
      obtain ⟨ts₃, rfl, dc, lc⟩ := hexpr hc
      refine ⟨_, by simp [Keyword.name], .cond da db dc, ?_⟩
      simp only [Expr.height]
      omega
  | define =>
      obtain ⟨x, _, hx, h⟩ := Run.bind_eq_ok h
      obtain ⟨e, _, he, h⟩ := Run.bind_eq_ok h
      cases h
      obtain ⟨hb, rfl⟩ := name_sound hx
      obtain ⟨c, rfl, de, le⟩ := hexpr he
      exact ⟨_, rfl, .define hb de, Nat.succ_le_succ le⟩
  | lambda =>
      obtain ⟨ps, _, hps, h⟩ := Run.bind_eq_ok h
      obtain ⟨e, _, he, h⟩ := Run.bind_eq_ok h
      cases h
      obtain ⟨hb, rfl⟩ := params_sound hps
      obtain ⟨c, rfl, de, le⟩ := hexpr he
      exact ⟨_, by simp [Keyword.name], .lambda hb de, Nat.succ_le_succ le⟩
  | quote =>
      obtain ⟨content, rfl, c, rfl, de, le⟩ := quote_sound hexpr h
      exact ⟨_, rfl, .quote de, Nat.succ_le_succ le⟩
  | assign =>
      obtain ⟨x, _, hx, h⟩ := Run.bind_eq_ok h
      obtain ⟨e, _, he, h⟩ := Run.bind_eq_ok h
      cases h
      obtain ⟨hb, rfl⟩ := name_sound hx
      obtain ⟨c, rfl, de, le⟩ := hexpr he
      exact ⟨_, rfl, .assign hb de, Nat.succ_le_succ le⟩

theorem itemsFrom_sound
    (hexpr : ∀ {ts e rest}, expr ts = (.ok e, rest) → Reads limit ts e rest)
    {bound : List Token} {done es : List Expr}
    (h : itemsFrom expr bound done ts = (.ok es, rest)) (hdone : FormAlone done.reverse) :
    FormAlone es ∧ ∃ c new, es = done.reverse ++ new ∧ ts = c ++ ")" :: rest ∧
      DerivesAll c new ∧ Expr.heightItems new ≤ limit := by
  induction bound generalizing done ts with
  | nil => cases h
  | cons b bound ih =>
      cases ts with
      | nil => cases h
      | cons t ts =>
          by_cases ht : t = ")"
          · subst ht
            cases h
            exact ⟨hdone, [], [], by simp, rfl, .nil, Nat.zero_le _⟩
          · obtain ⟨first, rfl, hfirst⟩ | hnext := form_alone_or_next done
            · rw [itemsFrom_form hfirst ht] at h
              cases h
            · rw [itemsFrom_next hnext ht] at h
              obtain ⟨e, _, he, h⟩ := Run.bind_eq_ok h
              obtain ⟨c₁, hts, de, le⟩ := hexpr he
              obtain ⟨halone, c₂, new, rfl, rfl, dnew, lnew⟩ := ih h (hdone.cons_reverse hnext e)
              refine ⟨halone, c₁ ++ c₂, e :: new, by simp, by simp [hts], .cons de dnew, ?_⟩
              simp only [Expr.heightItems]
              omega

end ReadM

theorem readExpr_sound {limit : Nat} {ts rest : List Token} {e : Expr}
    (h : readExpr limit ts = (.ok e, rest)) : Reads limit ts e rest := by
  induction limit generalizing ts e rest with
  | zero => cases h
  | succ limit ih =>
      cases ts with
      | nil =>
          rw [readExpr_nil] at h
          cases h
      | cons t ts =>
          cases t.begins with
          | atom hd hheight hreads =>
              rw [hreads] at h
              cases h
              exact ⟨[t], rfl, hd, by omega⟩
          | fault _ hreads =>
              rw [hreads] at h
              cases h
          | opening ht =>
              subst ht
              rw [readExpr_opening] at h
              obtain ⟨es, _, hes, h⟩ := Run.bind_eq_ok h
              cases h
              obtain ⟨halone, c, new, rfl, rfl, dnew, lnew⟩ := ReadM.itemsFrom_sound ih hes .nil
              exact ⟨_, by simp, .list dnew halone, Nat.succ_le_succ lnew⟩
          | keyword ht =>
              subst ht
              rw [readExpr_keyword] at h
              exact ReadM.form_sound ih h
          | mark _ _ hderives hreads =>
              rw [hreads] at h
              obtain ⟨content, rfl, c, hc, de, le⟩ := ReadM.quote_sound ih h
              obtain ⟨c', hc', dc'⟩ := hderives hc de
              exact ⟨c', hc', dc', Nat.succ_le_succ le⟩

/-! ### What derives is read -/

theorem Expr.height_pos (e : Expr) : 0 < e.height := by
  cases e <;> exact Nat.succ_pos _

theorem ReadM.paramsFrom_complete {ps : List String} (hps : ∀ p ∈ ps, Token.IsBindable p)
    (done : List String) (rest : List Token) :
    paramsFrom done (ps ++ ")" :: rest) = (.ok (done.reverse ++ ps), rest) := by
  induction ps generalizing done with
  | nil => simp [paramsFrom]
  | cons p ps ih =>
      obtain ⟨hp, hps⟩ := List.forall_mem_cons.mp hps
      rw [List.cons_append, paramsFrom, if_neg hp.2, if_neg hp.1, ih hps]
      simp

theorem ne_closing_of_readExpr {limit : Nat} {t : Token} {ts rest : List Token} {e : Expr}
    (h : readExpr limit (t :: ts) = (.ok e, rest)) : t ≠ ")" := by
  rintro rfl
  cases limit <;> cases h

open ReadM

mutual

theorem Derives.readExpr_append {c : List Token} {e : Expr} :
    Derives c e → ∀ limit, e.height ≤ limit → ∀ rest, readExpr limit (c ++ rest) = (.ok e, rest)
  | _, 0, h, _ => absurd h (Nat.not_le.mpr e.height_pos)
  | .number hx, limit + 1, _, rest => readExpr_number hx limit rest
  | .text, limit + 1, _, rest => readExpr_text _ limit rest
  | .symbol ht, limit + 1, _, rest => readExpr_symbol ht limit rest
  | .quoteMark he, limit + 1, h, rest => by
      rw [List.cons_append, readExpr_quoteMark]
      exact Run.bind_ok (he.readExpr_append limit (Nat.le_of_succ_le_succ h) rest)
  | .glued hr he, limit + 1, h, rest => by
      rw [List.cons_append, readExpr_glued hr]
      exact Run.bind_ok (he.readExpr_append limit (Nat.le_of_succ_le_succ h) rest)
  | .quote he, limit + 1, h, rest => by
      rw [List.cons_append]
      refine (readExpr_keyword .quote limit _).trans ?_
      exact Run.bind_ok (he.readExpr_append limit (Nat.le_of_succ_le_succ h) rest)
  | .cond ha hb hc, limit + 1, h, rest => by
      simp only [Expr.height, Nat.add_le_add_iff_right, Nat.max_le] at h
      rw [List.cons_append, List.append_assoc, List.append_assoc]
      refine (readExpr_keyword .cond limit _).trans ?_
      refine (Run.bind_ok (ha.readExpr_append limit h.1 _)).trans ?_
      refine (Run.bind_ok (hb.readExpr_append limit h.2.1 _)).trans ?_
      exact Run.bind_ok (hc.readExpr_append limit h.2.2 rest)
  | .define hx he, limit + 1, h, rest => by
      refine (readExpr_keyword .define limit _).trans ?_
      refine (Run.bind_ok (name_cons hx _ _)).trans ?_
      exact Run.bind_ok (he.readExpr_append limit (Nat.le_of_succ_le_succ h) rest)
  | .assign hx he, limit + 1, h, rest => by
      refine (readExpr_keyword .assign limit _).trans ?_
      refine (Run.bind_ok (name_cons hx _ _)).trans ?_
      exact Run.bind_ok (he.readExpr_append limit (Nat.le_of_succ_le_succ h) rest)
  | .lambda hps he, limit + 1, h, rest => by
      rw [List.cons_append, List.cons_append, List.append_assoc, List.cons_append]
      refine (readExpr_keyword .lambda limit _).trans ?_
      refine (Run.bind_ok (paramsFrom_complete hps [] _)).trans ?_
      exact Run.bind_ok (he.readExpr_append limit (Nat.le_of_succ_le_succ h) rest)
  | .list hes halone, limit + 1, h, rest => by
      rw [List.cons_append, List.append_assoc, readExpr_opening]
      refine Run.bind_ok (hes.itemsFrom_append limit (Nat.le_of_succ_le_succ h) ?_ [] halone rest)
      -- each item has a token, and the closing parenthesis is one more
      have hle := hes.length_le
      simp only [List.length_append, List.length_cons]
      omega

theorem DerivesAll.itemsFrom_append {c : List Token} {es : List Expr} :
    DerivesAll c es → ∀ limit, Expr.heightItems es ≤ limit → ∀ {bound : List Token},
      es.length < bound.length → ∀ done, FormAlone (done.reverse ++ es) → ∀ rest,
        itemsFrom (readExpr limit) bound done (c ++ ")" :: rest) = (.ok (done.reverse ++ es), rest)
  | _, _, _, [], hlen, _, _, _ => nomatch hlen
  | .nil, limit, _, b :: bound, _, done, _, rest => by
      rw [List.append_nil]
      exact itemsFrom_closing _ b bound done rest
  | .cons (e := e) he hes, limit, h, b :: bound, hlen, done, halone, rest => by
      simp only [Expr.heightItems, Nat.max_le] at h
      have hread := he.readExpr_append limit h.1
      have hitems := hes.itemsFrom_append limit h.2 (Nat.lt_of_succ_lt_succ hlen) (e :: done)
        (by simpa using halone) rest
      obtain ⟨t, ts, rfl⟩ := List.exists_cons_of_ne_nil he.ne_nil
      -- a form in front would stand alone, but there is still `e`
      have hnext : ∀ first, done = [first] → first.isForm = false := by
        rintro first rfl
        simpa using fun hform => List.cons_ne_nil _ _ (halone first _ rfl hform)
      rw [List.append_assoc]
      rw [List.cons_append, itemsFrom_next hnext (ne_closing_of_readExpr (hread []))]
      refine (Run.bind_ok (hread _)).trans ?_
      simpa using hitems

end

/-! ### The reader and the grammar -/

/-- Reading succeeds on the tokens in front that derive an expression, if it nests no
deeper than the limit. -/
theorem readExpr_ok_iff {limit : Nat} {ts rest : List Token} {e : Expr} :
    readExpr limit ts = (.ok e, rest) ↔ Reads limit ts e rest := by
  refine ⟨readExpr_sound, ?_⟩
  rintro ⟨c, rfl, hc, hlimit⟩
  exact hc.readExpr_append limit hlimit rest

/-- At most one prefix derives an expression, and it derives only one. -/
theorem Derives.unique {c₁ c₂ rest₁ rest₂ : List Token} {e₁ e₂ : Expr} (h₁ : Derives c₁ e₁)
    (h₂ : Derives c₂ e₂) (heq : c₁ ++ rest₁ = c₂ ++ rest₂) : c₁ = c₂ ∧ e₁ = e₂ := by
  have hread₁ := h₁.readExpr_append _ (Nat.le_max_left e₁.height e₂.height) rest₁
  have hread₂ := h₂.readExpr_append _ (Nat.le_max_right e₁.height e₂.height) rest₂
  rw [heq, hread₂] at hread₁
  cases hread₁
  exact ⟨List.append_cancel_right heq, rfl⟩

end FrameLisp
