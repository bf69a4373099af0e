/-
FrameLisp/Proofs/Reading/Incremental.lean

Reading tokens as they come in.

An expression that was read, and a fault other than that the tokens ended, depend
only on tokens that are already there, so they stand whatever comes next.  That the
tokens ended is said exactly of tokens that are incomplete but can be completed:

    readExpr limit ts  ends inside an expression
      ↔  no prefix of  ts  is an expression,  and  some  ts ++ us  is read.

The completion is built along the way the reader took: wherever it runs out, a name
does for every expression that is missing and a parenthesis closes what is open.
-/
import FrameLisp.Proofs.Reading.Acceptance

namespace FrameLisp

open ReadM

/-! ### Tokens that end inside an expression -/

/-- The step runs out of tokens. -/
def Unfinished {α : Type} (x : ReadM α) (ts : List Token) : Prop :=
  (x ts).1 = .error (.fault .endOfInput)

/-- Some tokens behind these make up an expression with them. -/
def Completable (ts : List Token) : Prop :=
  ∃ us e, Derives (ts ++ us) e

theorem Completable.intro {ts c : List Token} {e : Expr} (us : List Token) (h : Derives c e)
    (heq : ts ++ us = c) : Completable ts :=
  ⟨us, e, heq ▸ h⟩

theorem Unfinished.of_bind {α β : Type} {x : ReadM α} {k : α → ReadM β} {ts : List Token}
    (h : Unfinished (x >>= k) ts) :
    Unfinished x ts ∨ ∃ a left, x ts = (.ok a, left) ∧ Unfinished (k a) left := by
  obtain ⟨a, left, ha, hk⟩ | ⟨stop, hx, hstop⟩ := Run.bind_cases (Prod.ext h rfl)
  · exact .inr ⟨a, left, ha, congrArg Prod.fst hk⟩
  · cases hstop
    exact .inl (congrArg Prod.fst hx)

/-- Where nothing is done but a value returned, tokens run out before. -/
theorem Unfinished.of_bind_pure {α β : Type} {x : ReadM α} {g : α → β} {ts : List Token}
    (h : Unfinished (x >>= fun a => pure (g a)) ts) : Unfinished x ts := by
  obtain hx | ⟨a, left, -, hpure⟩ := h.of_bind
  · exact hx
  · cases hpure

theorem isBindable_x : Token.IsBindable "x" := ⟨by decide, by decide⟩

/-- A name does for an expression that is missing. -/
theorem derives_x : Derives ["x"] (.symbol "x") :=
  .symbol
    { bindable := isBindable_x
      notKeyword := by
        intro k
        cases k <;> decide
      notQuote := by decide
      notText := by decide
      notNumber := by decide }

/-! ### Completions -/

namespace ReadM

variable {ts : List Token} {limit : Nat}

theorem name_unfinished {form : String} (h : Unfinished (name form) ts) : ts = [] := by
  cases ts with
  | nil => rfl
  | cons t ts =>
      unfold Unfinished at h
      by_cases ht : t.IsBindable
      · rw [name_cons ht] at h
        cases h
      · rw [name_paren ht] at h
        cases h

theorem paramsFrom_unfinished {done : List String} (h : Unfinished (paramsFrom done) ts) :
    ∀ q ∈ ts, Token.IsBindable q := by
  induction ts generalizing done with
  | nil => exact List.forall_mem_nil _
  | cons t ts ih =>
      unfold Unfinished at h
      rw [paramsFrom] at h
      split at h
      · cases h
      · next hclose =>
          split at h
          · cases h
          · next hopen => exact List.forall_mem_cons.mpr ⟨⟨hopen, hclose⟩, ih h⟩

theorem params_unfinished (h : Unfinished params ts) :
    ts = [] ∨ ∃ qs, ts = "(" :: qs ∧ ∀ q ∈ qs, Token.IsBindable q := by
  cases ts with
  | nil => exact .inl rfl
  | cons t ts =>
      by_cases ht : t = "("
      · subst ht
        exact .inr ⟨ts, rfl, paramsFrom_unfinished h⟩
      · unfold Unfinished at h
        rw [params_other ht] at h
        cases h

theorem quote_unfinished {x : ReadM Expr} (h : Unfinished (form x .quote) ts) :
    Unfinished x ts :=
  h.of_bind_pure

theorem form_completable (ih : ∀ {ts}, Unfinished (readExpr limit) ts → Completable ts)
    {k : Keyword} (h : Unfinished (form (readExpr limit) k) ts) :
    Completable (k.name :: ts) := by
  cases k with
  | cond =>
      obtain ha | ⟨a, left₁, ha, h₁⟩ := h.of_bind
      · obtain ⟨us, e, he⟩ := ih ha
        exact .intro (us ++ ["x", "x"]) (.cond he derives_x derives_x) (by simp [Keyword.name])
      obtain ⟨ts₁, rfl, da, -⟩ := readExpr_sound ha
      obtain hb | ⟨b, left₂, hb, h₂⟩ := h₁.of_bind
      · obtain ⟨us, e, he⟩ := ih hb
        exact .intro (us ++ ["x"]) (.cond da he derives_x) (by simp [Keyword.name])
      obtain ⟨ts₂, rfl, db, -⟩ := readExpr_sound hb
      obtain ⟨us, e, he⟩ := ih h₂.of_bind_pure
      exact .intro us (.cond da db he) (by simp [Keyword.name])
  | define =>
      obtain hx | ⟨n, left, hn, he⟩ := h.of_bind
      · obtain rfl := name_unfinished hx
        exact .intro ["x", "x"] (.define isBindable_x derives_x) rfl
      obtain ⟨hb, rfl⟩ := name_sound hn
      obtain ⟨us, e, he⟩ := ih he.of_bind_pure
      exact .intro us (.define hb he) rfl
  | lambda =>
      obtain hps | ⟨ps, left, hps, he⟩ := h.of_bind
      · obtain rfl | ⟨qs, rfl, hqs⟩ := params_unfinished hps
        · exact .intro ["(", ")", "x"] (.lambda (List.forall_mem_nil _) derives_x) rfl
        · exact .intro [")", "x"] (.lambda hqs derives_x) rfl
      obtain ⟨hb, rfl⟩ := params_sound hps
      obtain ⟨us, e, he⟩ := ih he.of_bind_pure
      exact .intro us (.lambda hb he) (by simp [Keyword.name])
  | quote =>
      obtain ⟨us, e, he⟩ := ih (quote_unfinished h)
      exact .intro us (.quote he) rfl
  | assign =>
      obtain hx | ⟨n, left, hn, he⟩ := h.of_bind
      · obtain rfl := name_unfinished hx
        exact .intro ["x", "x"] (.assign isBindable_x derives_x) rfl
      obtain ⟨hb, rfl⟩ := name_sound hn
      obtain ⟨us, e, he⟩ := ih he.of_bind_pure
      exact .intro us (.assign hb he) rfl

/-- A list that is not closed lacks at most the end of its last item. -/
theorem itemsFrom_completable (ih : ∀ {ts}, Unfinished (readExpr limit) ts → Completable ts)
    {bound : List Token} {done : List Expr}
    (h : Unfinished (itemsFrom (readExpr limit) bound done) ts)
    (hbound : ts.length ≤ bound.length) (hdone : FormAlone done.reverse) :
    ∃ us es, DerivesAll (ts ++ us) es ∧ FormAlone (done.reverse ++ es) := by
  induction bound generalizing done ts with
  | nil =>
      obtain rfl : ts = [] := List.eq_nil_of_length_eq_zero (Nat.le_zero.mp hbound)
      exact ⟨[], [], .nil, by simpa using hdone⟩
  | cons b bound hrec =>
      cases ts with
      | nil => exact ⟨[], [], .nil, by simpa using hdone⟩
      | cons t ts =>
          unfold Unfinished at h
          by_cases ht : t = ")"
          · subst ht
            cases h
          obtain ⟨first, rfl, hfirst⟩ | hnext := form_alone_or_next done
          · rw [itemsFrom_form hfirst ht] at h
            cases h
          rw [itemsFrom_next hnext ht] at h
          obtain he | ⟨e, left, he, h⟩ := Unfinished.of_bind h
          · -- the tokens end inside this item, so it is the last one
            obtain ⟨us, e, he⟩ := ih he
            refine ⟨us, [e], by simpa using DerivesAll.cons he .nil, ?_⟩
            simpa using hdone.cons_reverse hnext e
          · have hlt := length_lt_of_readExpr he
            have hle := Nat.le_of_lt_succ (Nat.lt_of_lt_of_le hlt hbound)
            obtain ⟨c, hc, dc, -⟩ := readExpr_sound he
            obtain ⟨us, es, hes, halone⟩ := hrec h hle (hdone.cons_reverse hnext e)
            refine ⟨us, e :: es, ?_, by simpa using halone⟩
            rw [hc, List.append_assoc]
            exact .cons dc hes

end ReadM

theorem completable_of_unfinished {limit : Nat} {ts : List Token}
    (h : Unfinished (readExpr limit) ts) : Completable ts := by
  induction limit generalizing ts with
  | zero => cases h
  | succ limit ih =>
      cases ts with
      | nil => exact .intro ["x"] derives_x rfl
      | cons t ts =>
          unfold Unfinished at h
          cases t.begins with
          | atom _ _ hreads =>
              rw [hreads] at h
              cases h
          | fault hne hreads =>
              rw [hreads] at h
              cases h
              exact absurd rfl hne
          | opening ht =>
              subst ht
              rw [readExpr_opening] at h
              have hitems := Unfinished.of_bind_pure h
              obtain ⟨us, es, hes, halone⟩ :=
                itemsFrom_completable ih hitems (Nat.le_refl _) .nil
              exact .intro (us ++ [")"]) (.list hes halone) (by simp)
          | keyword ht =>
              subst ht
              rw [readExpr_keyword] at h
              exact form_completable ih h
          | mark _ _ hderives hreads =>
              rw [hreads] at h
              obtain ⟨us, e, he⟩ := ih (quote_unfinished h)
              rw [List.append_assoc] at he
              obtain ⟨c, hc, dc⟩ := hderives (List.append_nil _).symm he
              exact .intro us dc (by simpa using hc)

/-! ### Faults and their wording -/

theorem append_ne_of_start {t u : String} (h : ¬u.toList <+: t.toList) (s : String) :
    u ++ s ≠ t := by
  rintro rfl
  rw [String.toList_append] at h
  exact h (List.prefix_append _ _)

theorem append_ne_of_end {t u : String} (h : ¬u.toList <:+ t.toList) (s : String) :
    s ++ u ≠ t := by
  rintro rfl
  rw [String.toList_append] at h
  exact h (List.suffix_append _ _)

/-- No other fault is worded like the end of the tokens. -/
theorem ReadFault.message_eq_iff {cause : ReadFault} :
    cause.message = "Unexpected end of input" ↔ cause = .endOfInput := by
  constructor
  · intro h
    cases cause with
    | endOfInput => rfl
    | strayClosing => exact absurd h (by decide)
    | unterminatedText token => exact absurd h (append_ne_of_start (by decide) _)
    | nameExpected form token => exact absurd h (append_ne_of_end (by decide) _)
    | parametersExpected token => exact absurd h (append_ne_of_end (by decide) _)
    | nestedParameter => exact absurd h (by decide)
    | afterForm token form => exact absurd h (append_ne_of_end (by decide) _)
    | trailing token => exact absurd h (append_ne_of_end (by decide) _)
  · rintro rfl
    rfl

theorem ReadFault.isFinal {cause : ReadFault} (h : cause ≠ .endOfInput) (us : List Token) :
    (ReadStop.fault cause).IsFinal us := by
  cases cause with
  | endOfInput => exact absurd rfl h
  | _ => trivial

/-! ### Incomplete means completable -/

variable {limit : Nat} {ts : List Token}

/-- Tokens that end inside an expression have no expression in front. -/
theorem Unfinished.no_prefix (h : Unfinished (readExpr limit) ts) {p : List Token}
    (hp : p <+: ts) {limit' : Nat} {e : Expr} : readExpr limit' p ≠ (.ok e, []) := by
  rintro hread
  obtain ⟨rest, rfl⟩ := hp
  obtain ⟨c, hc, dc, -⟩ := readExpr_sound hread
  rw [List.append_nil] at hc
  subst hc
  have hshallow : Shallow (readExpr limit) (p ++ rest) := by
    unfold Shallow
    rw [h]
    exact nofun
  unfold Unfinished at h
  rw [(readExpr_ok_iff_derives hshallow e rest).mpr ⟨p, rfl, dc⟩] at h
  cases h

theorem unfinished_of_extension (h : Shallow (readExpr limit) ts)
    (hnone : ∀ p, p <+: ts → ∀ limit' e, readExpr limit' p ≠ (.ok e, []))
    {us rest : List Token} {limit' : Nat} {e : Expr}
    (hread : readExpr limit' (ts ++ us) = (.ok e, rest)) : Unfinished (readExpr limit) ts := by
  unfold Unfinished
  match hts : readExpr limit ts with
  | (.ok a, left) =>
      obtain ⟨c, hc, dc, -⟩ := readExpr_sound hts
      have hc' := dc.readExpr_append a.height (Nat.le_refl _) []
      rw [List.append_nil] at hc'
      exact absurd hc' (hnone c ⟨left, hc.symm⟩ _ a)
  | (.error .tooDeep, left) =>
      unfold Shallow at h
      rw [hts] at h
      exact absurd rfl h
  | (.error (.fault cause), left) =>
      by_cases hcause : cause = .endOfInput
      · rw [hcause]
      · -- any other fault would stand on the extension, which is read
        have hfault := (readExpr_carries (Nat.le_max_left limit limit') ts).error _ left hts
          (ReadFault.isFinal hcause us)
        have hok := readExpr_mono (Nat.le_max_right limit limit') hread nofun
        rw [hok] at hfault
        cases hfault

/-- What is read from tokens is read from them whatever comes behind, and a fault
other than that they ended stands with its wording.  They end inside an expression
exactly if no prefix of them is read as an expression but some extension is read.
For the prefix and the extension any limit will do: one that suffices for the tokens
need not suffice for the rest of the expression. -/
theorem readExpr_incremental (limit : Nat) (ts us : List Token) :
    (∀ e rest, readExpr limit ts = (.ok e, rest) →
      readExpr limit (ts ++ us) = (.ok e, rest ++ us)) ∧
    (∀ cause left, readExpr limit ts = (.error (.fault cause), left) →
      cause.message ≠ "Unexpected end of input" →
        readExpr limit (ts ++ us) = (.error (.fault cause), left ++ us)) ∧
    (Shallow (readExpr limit) ts →
      ((∃ cause, (readExpr limit ts).1 = .error (.fault cause) ∧
          cause.message = "Unexpected end of input") ↔
        (∀ p, p <+: ts → ∀ limit' e, readExpr limit' p ≠ (.ok e, [])) ∧
          ∃ vs limit' e rest, readExpr limit' (ts ++ vs) = (.ok e, rest))) := by
  have hcarries : Carries us (readExpr limit) (readExpr limit) ts :=
    readExpr_carries (Nat.le_refl limit) ts
  refine ⟨hcarries.ok, ?_, fun hshallow => ⟨?_, ?_⟩⟩
  · intro cause left hts hmessage
    have hcause : cause ≠ .endOfInput := fun h => hmessage (ReadFault.message_eq_iff.mpr h)
    exact hcarries.error _ left hts (ReadFault.isFinal hcause us)
  · rintro ⟨cause, hts, hmessage⟩
    rw [ReadFault.message_eq_iff] at hmessage
    subst hmessage
    refine ⟨fun p hp limit' e => Unfinished.no_prefix hts hp, ?_⟩
    obtain ⟨vs, e, he⟩ := completable_of_unfinished hts
    have hread := he.readExpr_append e.height (Nat.le_refl _) []
    rw [List.append_nil] at hread
    exact ⟨vs, e.height, e, [], hread⟩
  · rintro ⟨hnone, vs, limit', e, rest, hread⟩
    exact ⟨.endOfInput, unfinished_of_extension hshallow hnone hread, rfl⟩

end FrameLisp
