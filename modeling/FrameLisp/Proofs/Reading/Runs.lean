/-
FrameLisp/Proofs/Reading/Runs.lean

Every run of the reader ends.

The reader is a total function for two reasons that lie outside what it does: its
nesting is limited, and its loops count their rounds by the tokens there were at the
start.  Here are its runs with neither.  `ExprRun ts d o left` says that reading an
expression from `ts` comes to `o`, which is an expression or a fault, leaves the tokens
`left`, and has `d` expressions open inside each other where it nests deepest; the
rules for special forms, for the items of a list and for whole programs go with it.

The rules are the reader (`ExprRun.nests`):

    ExprRun ts d o left   ⟹   readExpr limit ts = (o, left)     if  d ≤ limit,
                              readExpr limit ts  is too deep     if  limit < d,

and every list of tokens has a run (`exprEnds`), which nests at most one deeper than the
tokens have characters: an expression that opens another one has taken a parenthesis, a
keyword or a quote mark for itself.  What is put back behind a quote mark does not stay
there, since reading an expression begins with taking a token, so the tokens left are
always the last of those there were.
-/
import FrameLisp.Proofs.Reading.Roots

namespace FrameLisp

open ReadM

/-! ### The rules -/

mutual

/-- Reading an expression. -/
inductive ExprRun : List Token → Nat → Except ReadFault Expr → List Token → Prop
  | ended : ExprRun [] 1 (.error .endOfInput) []
  | closing {ts} : ExprRun (")" :: ts) 1 (.error .strayClosing) ts
  | unterminated {t ts} :
      Token.HasShape t .unterminated → ExprRun (t :: ts) 1 (.error (.unterminatedText t)) ts
  | number {t x ts} : Number.ofToken? t = some x → ExprRun (t :: ts) 1 (.ok (.number x)) ts
  | text {s ts} : ExprRun (("\"" ++ s ++ "\"") :: ts) 1 (.ok (.text s)) ts
  | symbol {t ts} : Token.IsSymbol t → ExprRun (t :: ts) 1 (.ok (.symbol t)) ts
  | list {ts d o left} :
      ItemsRun [] ts d o left → ExprRun ("(" :: ts) (d + 1) (o.map .list) left
  | quoteMark {ts d o left} :
      FormRun .quote ts d o left → ExprRun ("'" :: ts) (d + 1) o left
  | glued {r ts d o left} :
      r ≠ "" → FormRun .quote (r :: ts) d o left → ExprRun (("'" ++ r) :: ts) (d + 1) o left
  | keyword {k ts d o left} :
      FormRun k ts d o left → ExprRun (Keyword.name k :: ts) (d + 1) o left

/-- Reading the rest of a special form, after its keyword. -/
inductive FormRun : Keyword → List Token → Nat → Except ReadFault Expr → List Token → Prop
  | cond {ts d₁ a ts₁ d₂ b ts₂ d₃ o left} :
      ExprRun ts d₁ (.ok a) ts₁ → ExprRun ts₁ d₂ (.ok b) ts₂ → ExprRun ts₂ d₃ o left →
      FormRun .cond ts (max d₁ (max d₂ d₃)) (o.map (.cond a b)) left
  | condTest {ts d cause left} :
      ExprRun ts d (.error cause) left → FormRun .cond ts d (.error cause) left
  | condConsequent {ts d₁ a ts₁ d₂ cause left} :
      ExprRun ts d₁ (.ok a) ts₁ → ExprRun ts₁ d₂ (.error cause) left →
      FormRun .cond ts (max d₁ d₂) (.error cause) left
  | define {ts x ts₁ d o left} :
      name Keyword.define.name ts = (.ok x, ts₁) → ExprRun ts₁ d o left →
      FormRun .define ts d (o.map (.define x)) left
  | defineName {ts cause left} :
      name Keyword.define.name ts = (.error (.fault cause), left) →
      FormRun .define ts 0 (.error cause) left
  | lambda {ts ps ts₁ d o left} :
      params ts = (.ok ps, ts₁) → ExprRun ts₁ d o left →
      FormRun .lambda ts d (o.map (.lambda ps)) left
  | lambdaParams {ts cause left} :
      params ts = (.error (.fault cause), left) → FormRun .lambda ts 0 (.error cause) left
  | quote {ts d o left} : ExprRun ts d o left → FormRun .quote ts d (o.map .quote) left
  | assign {ts x ts₁ d o left} :
      name Keyword.assign.name ts = (.ok x, ts₁) → ExprRun ts₁ d o left →
      FormRun .assign ts d (o.map (.assign x)) left
  | assignName {ts cause left} :
      name Keyword.assign.name ts = (.error (.fault cause), left) →
      FormRun .assign ts 0 (.error cause) left

/-- Reading the items of a list up to its closing parenthesis, after the items in `done`
(last one first). -/
inductive ItemsRun :
    List Expr → List Token → Nat → Except ReadFault (List Expr) → List Token → Prop
  | ended {done} : ItemsRun done [] 0 (.error .endOfInput) []
  | closing {done ts} : ItemsRun done (")" :: ts) 0 (.ok done.reverse) ts
  | afterForm {first t ts} :
      first.isForm = true → t ≠ ")" →
      ItemsRun [first] (t :: ts) 0 (.error (.afterForm t first)) (t :: ts)
  | stopped {done t ts d cause left} :
      (∀ first, done = [first] → first.isForm = false) → t ≠ ")" →
      ExprRun (t :: ts) d (.error cause) left → ItemsRun done (t :: ts) d (.error cause) left
  | next {done t ts d₁ e ts₁ d₂ o left} :
      (∀ first, done = [first] → first.isForm = false) → t ≠ ")" →
      ExprRun (t :: ts) d₁ (.ok e) ts₁ → ItemsRun (e :: done) ts₁ d₂ o left →
      ItemsRun done (t :: ts) (max d₁ d₂) o left

end

/-- Reading a whole program: the expressions read, and the fault that stopped it if one
did. -/
inductive RootsRun : List Token → Nat → List Expr → Option ReadFault → List Token → Prop
  | ended : RootsRun [] 0 [] none []
  | stopped {t ts d cause left} :
      ExprRun (t :: ts) d (.error cause) left → RootsRun (t :: ts) d [] (some cause) left
  | next {t ts d₁ e ts₁ d₂ es stop left} :
      ExprRun (t :: ts) d₁ (.ok e) ts₁ → RootsRun ts₁ d₂ es stop left →
      RootsRun (t :: ts) (max d₁ d₂) (e :: es) stop left

/-! ### Limits and runs -/

/-- With limits from `d` on the step comes to `o` and leaves `left`, and with limits below
`d` it nests too deep. -/
structure Nests {α : Type} (x : Nat → ReadM α) (ts : List Token) (d : Nat)
    (o : Except ReadFault α) (left : List Token) : Prop where
  ends {limit : Nat} : d ≤ limit → x limit ts = (o.mapError .fault, left)
  tooDeep {limit : Nat} : limit < d → (x limit ts).1 = .error .tooDeep

namespace Nests

variable {α β : Type} {ts ts₁ left : List Token} {d d₁ d₂ : Nat}

theorem of_eq {x : Nat → ReadM α} {o : Except ReadFault α}
    (h : ∀ limit, x limit ts = (o.mapError .fault, left)) : Nests x ts 0 o left where
  ends _ := h _
  tooDeep hlt := absurd hlt (Nat.not_lt_zero _)

theorem congr {x y : Nat → ReadM α} {o : Except ReadFault α} (hy : Nests y ts₁ d o left)
    (h : ∀ limit, x limit ts = y limit ts₁) : Nests x ts d o left where
  ends hle := by rw [h, hy.ends hle]
  tooDeep hlt := by rw [h, hy.tooDeep hlt]

theorem bind_tooDeep {x : ReadM α} (h : (x ts).1 = .error .tooDeep) (k : α → ReadM β) :
    ((x >>= k) ts).1 = .error .tooDeep := by
  have hx : x ts = (.error .tooDeep, (x ts).2) := Prod.ext h rfl
  rw [Run.bind_error hx]

theorem bind {x : Nat → ReadM α} {k : Nat → α → ReadM β} {a : α} {o : Except ReadFault β}
    (hx : Nests x ts d₁ (.ok a) ts₁) (hk : Nests (fun limit => k limit a) ts₁ d₂ o left) :
    Nests (fun limit => x limit >>= k limit) ts (max d₁ d₂) o left where
  ends {limit} hle := by
    obtain ⟨h₁, h₂⟩ := Nat.max_le.mp hle
    exact (Run.bind_ok (hx.ends h₁)).trans (hk.ends h₂)
  tooDeep {limit} hlt := by
    by_cases h₁ : d₁ ≤ limit
    · -- the first step is not too deep, so the second one is
      have h₂ : limit < d₂ := by omega
      exact (congrArg Prod.fst (Run.bind_ok (hx.ends h₁))).trans (hk.tooDeep h₂)
    · exact bind_tooDeep (hx.tooDeep (Nat.lt_of_not_le h₁)) (k limit)

theorem bind_error {x : Nat → ReadM α} {k : Nat → α → ReadM β} {cause : ReadFault}
    (hx : Nests x ts d (.error cause) left) :
    Nests (fun limit => x limit >>= k limit) ts d (.error cause) left where
  ends hle := Run.bind_error (hx.ends hle)
  tooDeep {limit} hlt := bind_tooDeep (hx.tooDeep hlt) (k limit)

theorem map {x : Nat → ReadM α} {o : Except ReadFault α} (hx : Nests x ts d o left)
    (g : α → β) : Nests (fun limit => x limit >>= fun a => pure (g a)) ts d (o.map g) left := by
  cases o with
  | error cause => exact hx.bind_error
  | ok a =>
      have hpure : Nests (fun _ => pure (g a) : Nat → ReadM β) left 0 (.ok (g a)) left :=
        .of_eq fun _ => rfl
      have hbind := hx.bind (k := fun _ a => pure (g a)) hpure
      rwa [Nat.max_zero] at hbind

/-- A step in front that cannot nest has no limit. -/
theorem bind_of_eq {x : ReadM α} {k : Nat → α → ReadM β} {a : α} {o : Except ReadFault β}
    (hx : x ts = (.ok a, ts₁)) (hk : Nests (fun limit => k limit a) ts₁ d o left) :
    Nests (fun limit => x >>= k limit) ts d o left :=
  hk.congr fun _ => Run.bind_ok hx

theorem error_of_eq {x : ReadM α} {k : Nat → α → ReadM β} {cause : ReadFault}
    (hx : x ts = (.error (.fault cause), left)) :
    Nests (fun limit => x >>= k limit) ts 0 (.error cause) left :=
  .of_eq fun _ => Run.bind_error hx

/-- Entering an expression takes one from the limit. -/
theorem deepen {x : Nat → ReadM Expr} {o : Except ReadFault Expr} (hx : Nests x ts₁ d o left)
    (h : ∀ limit, readExpr (limit + 1) ts = x limit ts₁) :
    Nests readExpr ts (d + 1) o left where
  ends {limit} hle := by
    obtain ⟨limit, rfl⟩ := Nat.exists_eq_add_one_of_ne_zero (Nat.ne_zero_of_lt hle)
    rw [h, hx.ends (Nat.le_of_succ_le_succ hle)]
  tooDeep {limit} hlt := by
    cases limit with
    | zero => rfl
    | succ limit => rw [h, hx.tooDeep (Nat.lt_of_succ_lt_succ hlt)]

theorem atom {o : Except ReadFault Expr}
    (h : ∀ limit, readExpr (limit + 1) ts = (o.mapError .fault, left)) :
    Nests readExpr ts 1 o left := by
  have hconst : Nests (fun _ _ => (o.mapError .fault, left)) ts 0 o left := .of_eq fun _ => rfl
  exact hconst.deepen h

/-- A step comes to one thing only. -/
theorem unique {x : Nat → ReadM α} {o₁ o₂ : Except ReadFault α} {left₁ left₂ : List Token}
    (h₁ : Nests x ts d₁ o₁ left₁) (h₂ : Nests x ts d₂ o₂ left₂) :
    d₁ = d₂ ∧ o₁ = o₂ ∧ left₁ = left₂ := by
  have hne : ∀ o : Except ReadFault α, o.mapError ReadStop.fault ≠ .error .tooDeep := by
    intro o
    cases o <;> exact nofun
  -- a limit that does for one run does for the other
  have hle : ∀ {d d' o o' l l'}, Nests x ts d o l → Nests x ts d' o' l' → d ≤ d' := by
    intro d d' o o' l l' h h'
    refine Nat.le_of_not_lt fun hlt => hne o' ?_
    rw [← h.tooDeep hlt, h'.ends (Nat.le_refl d')]
  have hd : d₁ = d₂ := Nat.le_antisymm (hle h₁ h₂) (hle h₂ h₁)
  subst hd
  have heq := (h₁.ends (Nat.le_refl d₁)).symm.trans (h₂.ends (Nat.le_refl d₁))
  obtain ⟨ho, hleft⟩ := Prod.mk.inj heq
  refine ⟨rfl, ?_, hleft⟩
  cases o₁ <;> cases o₂ <;> cases ho <;> rfl

end Nests

/-! ### The reader keeps to the rules -/

mutual

theorem ExprRun.nests {ts left : List Token} {d : Nat} {o : Except ReadFault Expr} :
    ExprRun ts d o left → Nests readExpr ts d o left
  | .ended => .atom readExpr_nil
  | .closing => .atom fun limit => readExpr_closing limit _
  | .unterminated ht => .atom fun limit => readExpr_unterminated ht limit _
  | .number hx => .atom fun limit => readExpr_number hx limit _
  | .text => .atom fun limit => readExpr_text _ limit _
  | .symbol ht => .atom fun limit => readExpr_symbol ht limit _
  | .list hitems =>
      ((hitems.nests (Nat.le_refl _)).map Expr.list).deepen fun limit => readExpr_opening limit _
  | .quoteMark hform => hform.nests.deepen fun limit => readExpr_quoteMark limit _
  | .glued hr hform => hform.nests.deepen fun limit => readExpr_glued hr limit _
  | .keyword hform => hform.nests.deepen fun limit => readExpr_keyword _ limit _

theorem FormRun.nests {k : Keyword} {ts left : List Token} {d : Nat}
    {o : Except ReadFault Expr} :
    FormRun k ts d o left → Nests (fun limit => form (readExpr limit) k) ts d o left
  | .cond ha hb hc => ha.nests.bind (hb.nests.bind (hc.nests.map _))
  | .condTest ha => ha.nests.bind_error
  | .condConsequent ha hb => ha.nests.bind hb.nests.bind_error
  | .define hx he => .bind_of_eq hx (he.nests.map _)
  | .defineName hx => .error_of_eq hx
  | .lambda hps he => .bind_of_eq hps (he.nests.map _)
  | .lambdaParams hps => .error_of_eq hps
  | .quote he => he.nests.map _
  | .assign hx he => .bind_of_eq hx (he.nests.map _)
  | .assignName hx => .error_of_eq hx

theorem ItemsRun.nests {done : List Expr} {ts left : List Token} {d : Nat}
    {o : Except ReadFault (List Expr)} :
    ItemsRun done ts d o left → ∀ {bound : List Token}, ts.length ≤ bound.length →
      Nests (fun limit => itemsFrom (readExpr limit) bound done) ts d o left
  | .ended, bound, _ => .of_eq fun _ => itemsFrom_nil _ bound done
  | .closing, b :: bound, _ => .of_eq fun _ => itemsFrom_closing _ b bound done _
  | .afterForm hform ht, b :: _, _ => .of_eq fun _ => itemsFrom_form hform ht b
  | .stopped hdone ht he, b :: _, _ =>
      he.nests.bind_error.congr fun _ => itemsFrom_next hdone ht b
  | .next hdone ht he hitems, b :: bound, hbound => by
      -- the item took a token, so the bound covers what is left
      have hlt := length_lt_of_readExpr (he.nests.ends (Nat.le_refl _))
      have hle := Nat.le_of_lt_succ (Nat.lt_of_lt_of_le hlt hbound)
      exact (he.nests.bind (hitems.nests hle)).congr fun _ => itemsFrom_next hdone ht b

end

theorem RootsRun.nests {ts left : List Token} {d : Nat} {es : List Expr}
    {stop : Option ReadFault} (h : RootsRun ts d es stop left) (limit : Nat) :
    (d ≤ limit → readRoots limit ts = ⟨es, stop.map .fault, left⟩) ∧
      (limit < d → (readRoots limit ts).stop = some .tooDeep) := by
  induction h with
  | ended => exact ⟨fun _ => readRoots_nil, fun hlt => absurd hlt (Nat.not_lt_zero limit)⟩
  | stopped he =>
      refine ⟨fun hle => readRoots_error (he.nests.ends hle), fun hlt => ?_⟩
      rw [readRoots_error (Prod.ext (he.nests.tooDeep hlt) rfl)]
  | @next t ts d₁ e ts₁ d₂ es stop left he _ ih =>
      constructor
      · intro hle
        obtain ⟨h₁, h₂⟩ := Nat.max_le.mp hle
        rw [readRoots_ok (he.nests.ends h₁), ih.1 h₂]
        rfl
      · intro hlt
        by_cases h₁ : d₁ ≤ limit
        · rw [readRoots_ok (he.nests.ends h₁)]
          exact ih.2 (by omega)
        · rw [readRoots_error (Prod.ext (he.nests.tooDeep (Nat.lt_of_not_le h₁)) rfl)]

theorem RootsRun.unique {ts left left' : List Token} {d d' : Nat} {es es' : List Expr}
    {stop stop' : Option ReadFault} (h : RootsRun ts d es stop left)
    (h' : RootsRun ts d' es' stop' left') :
    d = d' ∧ es = es' ∧ stop = stop' ∧ left = left' := by
  have hle : ∀ {d d' es es' stop stop' left left'}, RootsRun ts d es stop left →
      RootsRun ts d' es' stop' left' → d ≤ d' := by
    intro d d' es es' stop stop' left left' h h'
    refine Nat.le_of_not_lt fun hlt => ?_
    have hdeep := (h.nests d').2 hlt
    rw [(h'.nests d').1 (Nat.le_refl d')] at hdeep
    cases stop' <;> cases hdeep
  have hd : d = d' := Nat.le_antisymm (hle h h') (hle h' h)
  subst hd
  have heq := ((h.nests d).1 (Nat.le_refl d)).symm.trans ((h'.nests d).1 (Nat.le_refl d))
  obtain ⟨hes, hstop, hleft⟩ := Roots.mk.inj heq
  refine ⟨rfl, hes, ?_, hleft⟩
  cases stop <;> cases stop' <;> cases hstop <;> rfl

/-! ### What names and parameters leave -/

theorem ReadM.name_left (form : String) (ts : List Token) : (name form ts).2 <:+ ts := by
  cases ts with
  | nil => exact List.suffix_rfl
  | cons t ts =>
      by_cases ht : t.IsBindable
      · rw [name_cons ht]
        exact List.suffix_cons t ts
      · rw [name_paren ht]
        exact List.suffix_cons t ts

theorem ReadM.paramsFrom_left (done : List String) (ts : List Token) :
    (paramsFrom done ts).2 <:+ ts := by
  fun_induction paramsFrom done ts with
  | case1 => exact List.suffix_rfl
  | case2 => exact List.suffix_cons _ _
  | case3 => exact List.suffix_rfl
  | case4 done t ts _ _ ih => exact ih.trans (List.suffix_cons t ts)

theorem ReadM.params_left (ts : List Token) : (params ts).2 <:+ ts := by
  cases ts with
  | nil => exact List.suffix_rfl
  | cons t ts =>
      by_cases ht : t = "("
      · subst ht
        exact (paramsFrom_left [] ts).trans (List.suffix_cons _ ts)
      · refine ⟨[], ?_⟩
        rw [params_other ht, List.nil_append]

/-- A step that cannot nest gives a value or a fault. -/
theorem Shallow.cases {α : Type} {x : ReadM α} {ts : List Token} (h : Shallow x ts) :
    (∃ a, x ts = (.ok a, (x ts).2)) ∨ ∃ cause, x ts = (.error (.fault cause), (x ts).2) := by
  unfold Shallow at h
  rcases hx : x ts with ⟨(cause | _) | a, left⟩
  · exact .inr ⟨cause, rfl⟩
  · rw [hx] at h
    exact absurd rfl h
  · exact .inl ⟨a, rfl⟩

/-! ### There is a run from all tokens -/

/-- The characters of all tokens together. -/
def charCount : List Token → Nat
  | [] => 0
  | t :: ts => t.length + charCount ts

theorem charCount_append (ts us : List Token) :
    charCount (ts ++ us) = charCount ts + charCount us := by
  induction ts with
  | nil => exact (Nat.zero_add _).symm
  | cons t ts ih =>
      rw [List.cons_append, charCount, charCount, ih]
      omega

theorem charCount_le_of_suffix {left ts : List Token} (h : left <:+ ts) :
    charCount left ≤ charCount ts := by
  obtain ⟨c, rfl⟩ := h
  rw [charCount_append]
  exact Nat.le_add_left _ _

/-- Reading an expression from these tokens ends: it takes the first one, whatever it
comes to, and nests at most one deeper than there are characters. -/
def ExprEnds (ts : List Token) : Prop :=
  ∃ d o left, ExprRun ts d o left ∧ d ≤ charCount ts + 1 ∧ left <:+ ts.tail

theorem ExprEnds.of_suffix {ts ts₁ : List Token} (h : ExprEnds ts₁) (hts : ts₁ <:+ ts) :
    ∃ d o left, ExprRun ts₁ d o left ∧ d ≤ charCount ts + 1 ∧ left <:+ ts := by
  obtain ⟨d, o, left, hrun, hd, hleft⟩ := h
  have hcount := charCount_le_of_suffix hts
  exact ⟨d, o, left, hrun, by omega, hleft.trans ((List.tail_suffix ts₁).trans hts)⟩

section Existence

variable {ts : List Token}

theorem exists_quoteRun (h : ExprEnds ts) :
    ∃ d o left, FormRun .quote ts d o left ∧ d ≤ charCount ts + 1 ∧ left <:+ ts.tail := by
  obtain ⟨d, o, left, hrun, hbounds⟩ := h
  exact ⟨d, _, left, .quote hrun, hbounds⟩

variable (h : ∀ ts₁, ts₁ <:+ ts → ExprEnds ts₁)

include h

theorem exists_condRun :
    ∃ d o left, FormRun .cond ts d o left ∧ d ≤ charCount ts + 1 ∧ left <:+ ts := by
  obtain ⟨d₁, o₁, ts₁, h₁, hd₁, hts₁⟩ := (h ts List.suffix_rfl).of_suffix List.suffix_rfl
  cases o₁ with
  | error cause => exact ⟨d₁, _, ts₁, .condTest h₁, hd₁, hts₁⟩
  | ok a =>
      obtain ⟨d₂, o₂, ts₂, h₂, hd₂, hts₂⟩ := (h ts₁ hts₁).of_suffix hts₁
      cases o₂ with
      | error cause =>
          exact ⟨_, _, ts₂, .condConsequent h₁ h₂, Nat.max_le.mpr ⟨hd₁, hd₂⟩, hts₂⟩
      | ok b =>
          obtain ⟨d₃, o₃, left, h₃, hd₃, hleft⟩ := (h ts₂ hts₂).of_suffix hts₂
          have hd := Nat.max_le.mpr ⟨hd₁, Nat.max_le.mpr ⟨hd₂, hd₃⟩⟩
          exact ⟨_, _, left, .cond h₁ h₂ h₃, hd, hleft⟩

theorem exists_formRun (k : Keyword) :
    ∃ d o left, FormRun k ts d o left ∧ d ≤ charCount ts + 1 ∧ left <:+ ts := by
  cases k with
  | cond => exact exists_condRun h
  | define =>
      have hleft := name_left Keyword.define.name ts
      obtain ⟨x, hx⟩ | ⟨cause, hx⟩ := (name_shallow Keyword.define.name ts).cases
      · obtain ⟨d, o, left, he, hbounds⟩ := (h _ hleft).of_suffix hleft
        exact ⟨d, _, left, .define hx he, hbounds⟩
      · exact ⟨0, _, _, .defineName hx, Nat.zero_le _, hleft⟩
  | lambda =>
      have hleft := params_left ts
      obtain ⟨ps, hps⟩ | ⟨cause, hps⟩ := (params_shallow ts).cases
      · obtain ⟨d, o, left, he, hbounds⟩ := (h _ hleft).of_suffix hleft
        exact ⟨d, _, left, .lambda hps he, hbounds⟩
      · exact ⟨0, _, _, .lambdaParams hps, Nat.zero_le _, hleft⟩
  | quote =>
      obtain ⟨d, o, left, hrun, hd, hleft⟩ := exists_quoteRun (h ts List.suffix_rfl)
      exact ⟨d, o, left, hrun, hd, hleft.trans (List.tail_suffix ts)⟩
  | assign =>
      have hleft := name_left Keyword.assign.name ts
      obtain ⟨x, hx⟩ | ⟨cause, hx⟩ := (name_shallow Keyword.assign.name ts).cases
      · obtain ⟨d, o, left, he, hbounds⟩ := (h _ hleft).of_suffix hleft
        exact ⟨d, _, left, .assign hx he, hbounds⟩
      · exact ⟨0, _, _, .assignName hx, Nat.zero_le _, hleft⟩

end Existence

/-- The loop ends because every round takes a token. -/
theorem exists_itemsRun {ts : List Token} (h : ∀ ts₁, ts₁ <:+ ts → ExprEnds ts₁)
    (done : List Expr) :
    ∃ d o left, ItemsRun done ts d o left ∧ d ≤ charCount ts + 1 ∧ left <:+ ts := by
  induction hn : ts.length using Nat.strongRecOn generalizing ts done with
  | _ n ih =>
      subst hn
      cases ts with
      | nil => exact ⟨0, _, [], .ended, Nat.zero_le _, List.suffix_rfl⟩
      | cons t ts =>
          by_cases ht : t = ")"
          · subst ht
            exact ⟨0, _, ts, .closing, Nat.zero_le _, List.suffix_cons _ ts⟩
          obtain ⟨first, rfl, hfirst⟩ | hnext := form_alone_or_next done
          · exact ⟨0, _, t :: ts, .afterForm hfirst ht, Nat.zero_le _, List.suffix_rfl⟩
          obtain ⟨d₁, o, ts₁, he, hd₁, hts₁⟩ := h (t :: ts) List.suffix_rfl
          have hsuffix : ts₁ <:+ t :: ts := hts₁.trans (List.tail_suffix _)
          cases o with
          | error cause => exact ⟨d₁, _, ts₁, .stopped hnext ht he, hd₁, hsuffix⟩
          | ok e =>
              have hlt : ts₁.length < (t :: ts).length := Nat.lt_succ_of_le hts₁.length_le
              obtain ⟨d₂, o, left, hitems, hd₂, hleft⟩ :=
                ih _ hlt (fun ts₂ hts₂ => h ts₂ (hts₂.trans hsuffix)) (e :: done) rfl
              have hcount := charCount_le_of_suffix hsuffix
              refine ⟨_, _, left, .next hnext ht he hitems, ?_, hleft.trans hsuffix⟩
              omega

/-- An expression that opens others has a character that is not theirs. -/
theorem exprEnds (ts : List Token) : ExprEnds ts := by
  induction hn : charCount ts using Nat.strongRecOn generalizing ts with
  | _ n ih =>
      subst hn
      cases ts with
      | nil => exact ⟨1, _, [], .ended, Nat.le_refl 1, List.suffix_rfl⟩
      | cons t ts =>
          have hrec : ∀ ts', charCount ts' < charCount (t :: ts) → ∀ ts₁, ts₁ <:+ ts' →
              ExprEnds ts₁ := by
            intro ts' hlt ts₁ hts₁
            exact ih _ (Nat.lt_of_le_of_lt (charCount_le_of_suffix hts₁) hlt) ts₁ rfl
          have hone : 1 ≤ charCount (t :: ts) + 1 := Nat.succ_le_succ (Nat.zero_le _)
          obtain ⟨s, hs⟩ : ∃ s, t.HasShape s := ⟨_, Token.hasShape_shape t⟩
          cases hs with
          | opening =>
              have hcount : charCount ("(" :: ts) = charCount ts + 1 := Nat.add_comm 1 _
              obtain ⟨d, o, left, hitems, hd, hleft⟩ := exists_itemsRun (hrec ts (by omega)) []
              exact ⟨d + 1, _, left, .list hitems, by omega, hleft⟩
          | closing => exact ⟨1, _, ts, .closing, hone, List.suffix_rfl⟩
          | quoteMark r =>
              have hcount : charCount (("'" ++ r) :: ts) = charCount (r :: ts) + 1 := by
                rw [charCount, charCount, String.length_append]
                show 1 + r.length + charCount ts = r.length + charCount ts + 1
                omega
              by_cases hr : r = ""
              · subst hr
                have hcount' : charCount ("" :: ts) = charCount ts := Nat.zero_add _
                obtain ⟨d, o, left, hform, hd, hleft⟩ :=
                  exists_quoteRun (hrec ts (by omega) ts List.suffix_rfl)
                refine ⟨d + 1, _, left, .quoteMark hform, by omega, ?_⟩
                exact hleft.trans (List.tail_suffix ts)
              · -- what was put back is the token that the expression takes
                obtain ⟨d, o, left, hform, hd, hleft⟩ :=
                  exists_quoteRun (hrec (r :: ts) (by omega) _ List.suffix_rfl)
                exact ⟨d + 1, _, left, .glued hr hform, by omega, hleft⟩
          | number hx => exact ⟨1, _, ts, .number hx, hone, List.suffix_rfl⟩
          | text s => exact ⟨1, _, ts, .text, hone, List.suffix_rfl⟩
          | unterminated h₁ h₂ =>
              exact ⟨1, _, ts, .unterminated (.unterminated h₁ h₂), hone, List.suffix_rfl⟩
          | keyword k =>
              have hcount : charCount ts + 1 ≤ charCount (k.name :: ts) := by
                have hname : 1 ≤ k.name.length := by cases k <;> decide
                rw [charCount]
                omega
              obtain ⟨d, o, left, hform, hd, hleft⟩ := exists_formRun (hrec ts (by omega)) k
              exact ⟨d + 1, _, left, .keyword hform, by omega, hleft⟩
          | name ht => exact ⟨1, _, ts, .symbol ht, hone, List.suffix_rfl⟩

theorem exists_rootsRun (ts : List Token) :
    ∃ d es stop left, RootsRun ts d es stop left ∧ d ≤ charCount ts + 1 ∧ left <:+ ts ∧
      (stop = none → left = []) := by
  induction hn : ts.length using Nat.strongRecOn generalizing ts with
  | _ n ih =>
      subst hn
      cases ts with
      | nil => exact ⟨0, [], none, [], .ended, Nat.zero_le _, List.suffix_rfl, fun _ => rfl⟩
      | cons t ts =>
          obtain ⟨d₁, o, ts₁, he, hd₁, hts₁⟩ := exprEnds (t :: ts)
          have hsuffix : ts₁ <:+ t :: ts := hts₁.trans (List.tail_suffix _)
          cases o with
          | error cause => exact ⟨d₁, [], some cause, ts₁, .stopped he, hd₁, hsuffix, nofun⟩
          | ok e =>
              have hlt : ts₁.length < (t :: ts).length := Nat.lt_succ_of_le hts₁.length_le
              obtain ⟨d₂, es, stop, left, hroots, hd₂, hleft, hend⟩ := ih _ hlt ts₁ rfl
              have hcount := charCount_le_of_suffix hsuffix
              refine ⟨_, _, stop, left, .next he hroots, ?_, hleft.trans hsuffix, hend⟩
              omega

/-! ### The reader is total -/

/-- **Every method of the reader ends and leaves the last of its tokens.**  From any
tokens, an expression, the rest of any special form and a whole program each have exactly
one run.  It nests at most one deeper than the tokens have characters, it is what the
reader does with every limit that it keeps to, and the tokens left are a suffix of those
there were, whatever the run comes to.  An expression that was read has taken a token. -/
theorem reader_ends :
    (∀ ts, ∃ d o left, ExprRun ts d o left ∧
      (∀ d' o' left', ExprRun ts d' o' left' → d' = d ∧ o' = o ∧ left' = left) ∧
      d ≤ 1 + charCount ts ∧ Nests readExpr ts d o left ∧
      left <:+ ts ∧ ∀ e, o = .ok e → left.length < ts.length) ∧
    (∀ k ts, ∃ d o left, FormRun k ts d o left ∧
      (∀ d' o' left', FormRun k ts d' o' left' → d' = d ∧ o' = o ∧ left' = left) ∧
      d ≤ 1 + charCount ts ∧ Nests (fun limit => form (readExpr limit) k) ts d o left ∧
      left <:+ ts) ∧
    ∀ ts, ∃ d es stop left, RootsRun ts d es stop left ∧
      (∀ d' es' stop' left', RootsRun ts d' es' stop' left' →
        d' = d ∧ es' = es ∧ stop' = stop ∧ left' = left) ∧
      d ≤ 1 + charCount ts ∧
      (∀ limit, (d ≤ limit → readRoots limit ts = ⟨es, stop.map .fault, left⟩) ∧
        (limit < d → (readRoots limit ts).stop = some .tooDeep)) ∧
      left <:+ ts ∧ (stop = none → left = []) := by
  refine ⟨fun ts => ?_, fun k ts => ?_, fun ts => ?_⟩
  · obtain ⟨d, o, left, hrun, hd, hleft⟩ := exprEnds ts
    refine ⟨d, o, left, hrun, fun d' o' left' hrun' => hrun'.nests.unique hrun.nests,
      by omega, hrun.nests, hleft.trans (List.tail_suffix ts), ?_⟩
    rintro e rfl
    exact length_lt_of_readExpr (hrun.nests.ends (Nat.le_refl d))
  · obtain ⟨d, o, left, hrun, hd, hleft⟩ := exists_formRun (fun ts₁ _ => exprEnds ts₁) k
    exact ⟨d, o, left, hrun, fun d' o' left' hrun' => hrun'.nests.unique hrun.nests,
      by omega, hrun.nests, hleft⟩
  · obtain ⟨d, es, stop, left, hrun, hd, hleft⟩ := exists_rootsRun ts
    exact ⟨d, es, stop, left, hrun, fun _ _ _ _ hrun' => hrun'.unique hrun, by omega,
      hrun.nests, hleft⟩

end FrameLisp
