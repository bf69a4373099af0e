/-
FrameLisp/Proofs/Reading/Stability.lean

What the reader has settled stays settled.

The reader looks at no token before it has to, so what it has found out about the
tokens `ts` holds of `ts ++ us` as well.  Only two of its answers are open: that the
tokens ended, which more tokens can change, and that the limit was reached, which a
greater limit can change.  `Carries us x y ts` says this of two steps of reading,

    x ts = (r, left)  and  r is final   ⟹   y (ts ++ us) = (r, left ++ us),

and is closed under everything readers are built from, so that it holds of `readExpr`
at a limit and at any greater one (`readExpr_carries`).  With no further tokens it
says that a greater limit changes nothing once the limit was not reached.

A limit is reached only if the tokens make the reader nest that deep: each nested
expression has taken a token or stripped a quote mark from one, so a limit above the
`weight` of the tokens is never reached (`readExpr_shallow`).
-/
import FrameLisp.Proofs.Reading.Grammar

namespace FrameLisp

open ReadM

/-! ### Answers that stand -/

/-- A stop that neither the tokens `us` behind nor a greater limit can avert. -/
def ReadStop.IsFinal (us : List Token) : ReadStop → Prop
  | .tooDeep => False
  | .fault .endOfInput => us = []
  | .fault _ => True

/-- What `x` settles on `ts`, `y` gives with the tokens `us` behind. -/
structure Carries {α : Type} (us : List Token) (x y : ReadM α) (ts : List Token) : Prop where
  ok : ∀ a left, x ts = (.ok a, left) → y (ts ++ us) = (.ok a, left ++ us)
  error : ∀ stop left, x ts = (.error stop, left) → stop.IsFinal us →
    y (ts ++ us) = (.error stop, left ++ us)

namespace Carries

variable {α β : Type} {us ts : List Token}

theorem of_ok {x y : ReadM α} {a : α} {left : List Token} (hx : x ts = (.ok a, left))
    (hy : y (ts ++ us) = (.ok a, left ++ us)) : Carries us x y ts where
  ok := by
    intro b left' h
    rw [hx] at h
    cases h
    exact hy
  error := by
    intro stop left' h
    rw [hx] at h
    cases h

theorem of_error {x y : ReadM α} {stop : ReadStop} {left : List Token}
    (hx : x ts = (.error stop, left))
    (hy : stop.IsFinal us → y (ts ++ us) = (.error stop, left ++ us)) : Carries us x y ts where
  ok := by
    intro b left' h
    rw [hx] at h
    cases h
  error := by
    intro stop' left' h
    rw [hx] at h
    cases h
    exact hy

theorem bind {x y : ReadM α} {k l : α → ReadM β} (hx : Carries us x y ts)
    (hk : ∀ a left, x ts = (.ok a, left) → Carries us (k a) (l a) left) :
    Carries us (x >>= k) (y >>= l) ts where
  ok := by
    intro b left h
    obtain ⟨a, mid, ha, h⟩ := Run.bind_eq_ok h
    rw [Run.bind_ok (hx.ok a mid ha)]
    exact (hk a mid ha).ok b left h
  error := by
    intro stop left h hstop
    obtain ⟨a, mid, ha, h⟩ | ⟨stop', hs, h⟩ := Run.bind_cases h
    · rw [Run.bind_ok (hx.ok a mid ha)]
      exact (hk a mid ha).error stop left h hstop
    · cases h
      exact Run.bind_error (hx.error stop left hs hstop)

/-- Running out of tokens is final only if none are behind. -/
theorem of_endOfInput {x y : ReadM α} (hx : x [] = (.error (.fault .endOfInput), []))
    (hy : y [] = (.error (.fault .endOfInput), [])) : Carries us x y [] := by
  refine .of_error hx ?_
  rintro rfl
  exact hy

/-- Steps that go on from other tokens carry if what they go on with does. -/
theorem of_eq {x y x' y' : ReadM α} {ts' : List Token} (hx : x ts = x' ts')
    (hy : y (ts ++ us) = y' (ts' ++ us)) (h : Carries us x' y' ts') : Carries us x y ts where
  ok := by
    intro a left hok
    rw [hy]
    exact h.ok a left (hx ▸ hok)
  error := by
    intro stop left herror
    rw [hy]
    exact h.error stop left (hx ▸ herror)

end Carries

/-! ### Steps on the stream -/

variable {us : List Token}

theorem ReadM.advance_carries (ts : List Token) : Carries us advance advance ts := by
  cases ts with
  | nil => exact .of_endOfInput advance_nil advance_nil
  | cons t ts => exact .of_ok (advance_cons t ts) (advance_cons t (ts ++ us))

theorem ReadM.peek_carries (ts : List Token) : Carries us peek peek ts := by
  cases ts with
  | nil => exact .of_endOfInput peek_nil peek_nil
  | cons t ts => exact .of_ok (peek_cons t ts) (peek_cons t (ts ++ us))

theorem ReadM.name_carries (form : String) (ts : List Token) :
    Carries us (name form) (name form) ts := by
  refine (advance_carries ts).bind fun t left _ => ?_
  split
  · exact .of_error rfl fun _ => rfl
  · exact .of_ok rfl rfl

theorem ReadM.paramsFrom_carries (done : List String) (ts : List Token) :
    Carries us (paramsFrom done) (paramsFrom done) ts := by
  induction ts generalizing done with
  | nil => exact .of_endOfInput rfl rfl
  | cons t ts ih =>
      by_cases hclose : t = ")"
      · subst hclose
        exact .of_ok rfl rfl
      · by_cases hopen : t = "("
        · subst hopen
          exact .of_error rfl fun _ => rfl
        · have hnext : ∀ ts, paramsFrom done (t :: ts) = paramsFrom (t :: done) ts := by
            intro ts
            rw [paramsFrom, if_neg hclose, if_neg hopen]
          exact .of_eq (hnext ts) (hnext (ts ++ us)) (ih (t :: done))

theorem ReadM.params_carries (ts : List Token) : Carries us params params ts := by
  refine (peek_carries ts).bind fun t left _ => ?_
  split
  · exact (advance_carries left).bind fun _ left _ => paramsFrom_carries [] left
  · exact .of_error rfl fun _ => rfl

/-! ### Expressions -/

variable {x y : ReadM Expr}

theorem ReadM.form_carries (h : ∀ ts, Carries us x y ts) (k : Keyword) (ts : List Token) :
    Carries us (form x k) (form y k) ts := by
  cases k with
  | cond =>
      refine (h ts).bind fun a left _ => ?_
      refine (h left).bind fun b left _ => ?_
      exact (h left).bind fun c left _ => .of_ok rfl rfl
  | define =>
      refine (name_carries _ ts).bind fun n left _ => ?_
      exact (h left).bind fun e left _ => .of_ok rfl rfl
  | lambda =>
      refine (params_carries ts).bind fun ps left _ => ?_
      exact (h left).bind fun e left _ => .of_ok rfl rfl
  | quote => exact (h ts).bind fun e left _ => .of_ok rfl rfl
  | assign =>
      refine (name_carries _ ts).bind fun n left _ => ?_
      exact (h left).bind fun e left _ => .of_ok rfl rfl

/-- The bounds of both loops need only cover the tokens that are left, since every
item takes at least one. -/
theorem ReadM.itemsFrom_carries (h : ∀ ts, Carries us x y ts)
    (htakes : ∀ ts e left, x ts = (.ok e, left) → left.length < ts.length)
    {bound bound' : List Token} {done : List Expr} {ts : List Token}
    (hbound : ts.length ≤ bound.length) (hbound' : (ts ++ us).length ≤ bound'.length) :
    Carries us (itemsFrom x bound done) (itemsFrom y bound' done) ts := by
  induction bound generalizing bound' done ts with
  | nil =>
      obtain rfl : ts = [] := List.eq_nil_of_length_eq_zero (Nat.le_zero.mp hbound)
      exact .of_endOfInput (itemsFrom_nil ..) (itemsFrom_nil ..)
  | cons b bound ih =>
      cases ts with
      | nil => exact .of_endOfInput (itemsFrom_nil ..) (itemsFrom_nil ..)
      | cons t ts =>
          obtain _ | ⟨b', bound'⟩ := bound'
          · cases hbound'
          by_cases ht : t = ")"
          · subst ht
            exact .of_ok rfl rfl
          obtain ⟨first, rfl, hfirst⟩ | hnext := form_alone_or_next done
          · exact .of_error (itemsFrom_form hfirst ht b) fun _ => itemsFrom_form hfirst ht b'
          refine .of_eq (itemsFrom_next hnext ht b) (itemsFrom_next hnext ht b') ?_
          -- the item took a token, so both bounds cover what is left
          refine (h (t :: ts)).bind fun e left he => ih ?_ ?_
          · exact Nat.le_of_lt_succ (Nat.lt_of_lt_of_le (htakes _ e left he) hbound)
          · have hlt := htakes _ e left he
            simp only [List.length_append, List.length_cons] at hbound' hlt ⊢
            omega

theorem length_lt_of_readExpr {limit : Nat} {ts left : List Token} {e : Expr}
    (h : readExpr limit ts = (.ok e, left)) : left.length < ts.length := by
  obtain ⟨c, rfl, hc, -⟩ := readExpr_sound h
  have hpos := List.length_pos_iff.mpr hc.ne_nil
  rw [List.length_append]
  omega

theorem readExpr_carries {limit limit' : Nat} (hle : limit ≤ limit') (ts : List Token) :
    Carries us (readExpr limit) (readExpr limit') ts := by
  induction limit generalizing limit' ts with
  | zero => exact .of_error rfl nofun
  | succ limit ih =>
      obtain ⟨limit', rfl⟩ := Nat.exists_eq_add_one_of_ne_zero (Nat.ne_zero_of_lt hle)
      have hrec := ih (Nat.le_of_succ_le_succ hle)
      cases ts with
      | nil => exact .of_endOfInput (readExpr_nil limit) (readExpr_nil limit')
      | cons t ts =>
          cases t.begins with
          | atom _ _ hreads => exact .of_ok (hreads limit ts) (hreads limit' _)
          | fault _ hreads => exact .of_error (hreads limit ts) fun _ => hreads limit' _
          | opening ht =>
              subst ht
              refine .of_eq (readExpr_opening limit ts) (readExpr_opening limit' (ts ++ us)) ?_
              refine (itemsFrom_carries hrec ?_ ?_ ?_).bind fun es left _ => .of_ok rfl rfl
              · exact fun _ _ _ => length_lt_of_readExpr
              · exact Nat.le_refl _
              · exact Nat.le_refl _
          | keyword ht =>
              subst ht
              exact .of_eq (readExpr_keyword _ limit ts) (readExpr_keyword _ limit' (ts ++ us))
                (form_carries hrec _ ts)
          | mark back _ _ hreads =>
              refine .of_eq (hreads limit ts) ?_ (form_carries hrec .quote _)
              rw [List.append_assoc]
              exact hreads limit' (ts ++ us)

/-- A greater limit changes nothing once the limit was not reached. -/
theorem readExpr_mono {limit limit' : Nat} (hle : limit ≤ limit') {ts left : List Token}
    {r : Except ReadStop Expr} (h : readExpr limit ts = (r, left)) (hr : r ≠ .error .tooDeep) :
    readExpr limit' ts = (r, left) := by
  have hcarries : Carries [] (readExpr limit) (readExpr limit') ts := readExpr_carries hle ts
  cases r with
  | ok e => simpa using hcarries.ok e left h
  | error stop =>
      have hfinal : stop.IsFinal [] := by
        cases stop with
        | tooDeep => exact hr rfl
        | fault cause => cases cause <;> first | rfl | trivial
      simpa using hcarries.error stop left h hfinal

/-! ### Limits that are never reached -/

/-- The step does not reach its limit on these tokens. -/
def Shallow {α : Type} (x : ReadM α) (ts : List Token) : Prop :=
  (x ts).1 ≠ .error .tooDeep

theorem Shallow.bind {α β : Type} {x : ReadM α} {k : α → ReadM β} {ts : List Token}
    (hx : Shallow x ts) (hk : ∀ a left, x ts = (.ok a, left) → Shallow (k a) left) :
    Shallow (x >>= k) ts := by
  unfold Shallow at *
  rcases hr : x ts with ⟨stop | a, left⟩
  · rw [Run.bind_error hr]
    rintro h
    cases h
    rw [hr] at hx
    exact hx rfl
  · rw [Run.bind_ok hr]
    exact hk a left hr

theorem ReadM.name_shallow (form : String) (ts : List Token) : Shallow (name form) ts := by
  cases ts with
  | nil => exact nofun
  | cons t ts =>
      unfold Shallow
      by_cases ht : t.IsBindable
      · rw [name_cons ht]
        exact nofun
      · rw [name_paren ht]
        exact nofun

theorem ReadM.paramsFrom_shallow (done : List String) (ts : List Token) :
    Shallow (paramsFrom done) ts := by
  unfold Shallow
  fun_induction paramsFrom done ts with
  | case4 done t ts hclose hopen ih => exact ih
  | _ => exact nofun

theorem ReadM.params_shallow (ts : List Token) : Shallow params ts := by
  cases ts with
  | nil => exact nofun
  | cons t ts =>
      by_cases ht : t = "("
      · subst ht
        exact paramsFrom_shallow [] ts
      · unfold Shallow
        rw [params_other ht]
        exact nofun

/-- A special form reads expressions only from what is left of its tokens. -/
theorem ReadM.form_shallow {ts : List Token} (h : ∀ left, left <:+ ts → Shallow x left)
    (hleft : ∀ ts e left, x ts = (.ok e, left) → left <:+ ts) (k : Keyword) :
    Shallow (form x k) ts := by
  cases k with
  | cond =>
      refine (h ts List.suffix_rfl).bind fun a left₁ h₁ => ?_
      have hsuf₁ := hleft _ _ _ h₁
      refine (h left₁ hsuf₁).bind fun b left₂ h₂ => ?_
      have hsuf₂ := (hleft _ _ _ h₂).trans hsuf₁
      exact (h left₂ hsuf₂).bind fun c left _ => nofun
  | define =>
      refine (name_shallow _ ts).bind fun n left hn => ?_
      obtain ⟨-, rfl⟩ := name_sound hn
      exact (h left (List.suffix_cons n left)).bind fun e left _ => nofun
  | lambda =>
      refine (params_shallow ts).bind fun ps left hps => ?_
      obtain ⟨-, rfl⟩ := params_sound hps
      refine (h left ⟨"(" :: (ps ++ [")"]), by simp⟩).bind fun e left _ => nofun
  | quote => exact (h ts List.suffix_rfl).bind fun e left _ => nofun
  | assign =>
      refine (name_shallow _ ts).bind fun n left hn => ?_
      obtain ⟨-, rfl⟩ := name_sound hn
      exact (h left (List.suffix_cons n left)).bind fun e left _ => nofun

theorem ReadM.itemsFrom_shallow {ts : List Token} (h : ∀ left, left <:+ ts → Shallow x left)
    (hleft : ∀ ts e left, x ts = (.ok e, left) → left <:+ ts) (bound : List Token)
    (done : List Expr) : Shallow (itemsFrom x bound done) ts := by
  induction bound generalizing done ts with
  | nil => exact nofun
  | cons b bound ih =>
      cases ts with
      | nil => exact nofun
      | cons t ts =>
          by_cases ht : t = ")"
          · subst ht
            exact nofun
          unfold Shallow
          obtain ⟨first, rfl, hfirst⟩ | hnext := form_alone_or_next done
          · rw [itemsFrom_form hfirst ht]
            exact nofun
          · rw [itemsFrom_next hnext ht]
            refine (h (t :: ts) List.suffix_rfl).bind fun e left he => ?_
            have hsuf := hleft _ _ _ he
            exact ih (fun left' hleft' => h left' (hleft'.trans hsuf)) (e :: done)

theorem weight_append (ts us : List Token) : weight (ts ++ us) = weight ts + weight us := by
  induction ts with
  | nil => exact (Nat.zero_add _).symm
  | cons t ts ih =>
      rw [List.cons_append, weight, weight, ih]
      omega

theorem weight_le_of_suffix {left ts : List Token} (h : left <:+ ts) :
    weight left ≤ weight ts := by
  obtain ⟨c, rfl⟩ := h
  rw [weight_append]
  exact Nat.le_add_left _ _

theorem suffix_of_readExpr {limit : Nat} (ts : List Token) (e : Expr) (left : List Token)
    (h : readExpr limit ts = (.ok e, left)) : left <:+ ts := by
  obtain ⟨c, rfl, -⟩ := readExpr_sound h
  exact List.suffix_append c left

theorem readExpr_shallow {limit : Nat} {ts : List Token} (h : weight ts < limit) :
    Shallow (readExpr limit) ts := by
  induction limit generalizing ts with
  | zero => cases h
  | succ limit ih =>
      cases ts with
      | nil => exact nofun
      | cons t ts =>
          -- below, expressions are read from what is left of tokens of less weight
          have hrec : ∀ ts', weight ts' < weight (t :: ts) → ∀ left, left <:+ ts' →
              Shallow (readExpr limit) left := by
            intro ts' hts' left hleft
            have hweight := weight_le_of_suffix hleft
            exact ih (by omega)
          have htail : weight ts < weight (t :: ts) := by
            rw [weight]
            omega
          unfold Shallow
          cases t.begins with
          | atom _ _ hreads =>
              rw [hreads]
              exact nofun
          | fault _ hreads =>
              rw [hreads]
              exact nofun
          | opening ht =>
              subst ht
              rw [readExpr_opening]
              have hitems := itemsFrom_shallow (hrec ts htail) suffix_of_readExpr ts []
              exact hitems.bind fun es left _ => nofun
          | keyword ht =>
              subst ht
              rw [readExpr_keyword]
              exact form_shallow (hrec ts htail) suffix_of_readExpr _
          | mark back hback _ hreads =>
              rw [hreads]
              refine form_shallow (hrec _ ?_) suffix_of_readExpr .quote
              rw [weight_append, weight]
              omega

end FrameLisp
