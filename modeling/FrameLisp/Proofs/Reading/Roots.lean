/-
FrameLisp/Proofs/Reading/Roots.lean

Reading a whole program, expression by expression.

The loop that reads the roots of a program carries a bound on its rounds and the roots
read so far.  Neither matters: a bound that covers the tokens is never reached, since
every expression takes a token, and the roots so far are put in front of the others in
the end (`readRootsFrom_eq`).  What is left is a recursion on the tokens,

    readRoots ts  =  e, and then readRoots rest        if  readExpr ts = (e, rest),

and `readRoots_induction` is the induction that goes with it.  By this, tokens behind a
program that is complete are read as a program of their own (`readRoots_append`), and a
greater limit changes nothing once the limit was not reached (`readRoots_mono`).  Programs
are read by the grammar of expressions (`readAll_ok_iff_derivesAll`).
-/
import FrameLisp.Proofs.Reading.Stability
import FrameLisp.Proofs.Reading.Words

namespace FrameLisp

/-- Put expressions in front of those that were read. -/
def Roots.prepend (es : List Expr) (r : Roots) : Roots := { r with exprs := es ++ r.exprs }

theorem Roots.prepend_prepend (es ds : List Expr) (r : Roots) :
    (r.prepend ds).prepend es = r.prepend (es ++ ds) := by
  simp [prepend]

variable {limit : Nat}

/-! ### The loop -/

variable {t : Token} {ts rest : List Token} {e : Expr} {stop : ReadStop}

theorem readRootsFrom_ok (hread : readExpr limit (t :: ts) = (.ok e, rest)) (b : Token)
    (bound : List Token) (done : List Expr) :
    readRootsFrom limit (b :: bound) done (t :: ts) =
      readRootsFrom limit bound (e :: done) rest := by
  simp only [readRootsFrom, hread]

theorem readRootsFrom_error (hread : readExpr limit (t :: ts) = (.error stop, rest)) (b : Token)
    (bound : List Token) (done : List Expr) :
    readRootsFrom limit (b :: bound) done (t :: ts) = ⟨done.reverse, some stop, rest⟩ := by
  simp only [readRootsFrom, hread]

/-- The loop does not depend on its bound, and puts what it starts with in front. -/
theorem readRootsFrom_eq {bound tokens : List Token} (hbound : tokens.length ≤ bound.length)
    (done : List Expr) :
    readRootsFrom limit bound done tokens = (readRoots limit tokens).prepend done.reverse := by
  induction hn : tokens.length using Nat.strongRecOn generalizing tokens bound done with
  | _ n ih =>
      subst hn
      cases tokens with
      | nil => cases bound <;> simp [readRootsFrom, readRoots, Roots.prepend]
      | cons t ts =>
          cases bound with
          | nil => cases hbound
          | cons b bound =>
              rw [readRoots]
              rcases hread : readExpr limit (t :: ts) with ⟨stop | e, rest⟩
              · rw [readRootsFrom_error hread, readRootsFrom_error hread]
                simp [Roots.prepend]
              · -- what is left is shorter, so both bounds cover it
                have hlt := length_lt_of_readExpr hread
                have hts : rest.length ≤ ts.length := Nat.le_of_lt_succ hlt
                have hrest := Nat.le_trans hts (Nat.le_of_succ_le_succ hbound)
                rw [readRootsFrom_ok hread, readRootsFrom_ok hread,
                  ih rest.length hlt hrest (e :: done) rfl, ih rest.length hlt hts [e] rfl,
                  Roots.prepend_prepend]
                simp

theorem readRoots_nil : readRoots limit [] = ⟨[], none, []⟩ := rfl

theorem readRoots_ok (hread : readExpr limit (t :: ts) = (.ok e, rest)) :
    readRoots limit (t :: ts) = (readRoots limit rest).prepend [e] := by
  have hrest : rest.length ≤ ts.length := Nat.le_of_lt_succ (length_lt_of_readExpr hread)
  rw [readRoots, readRootsFrom_ok hread]
  exact readRootsFrom_eq hrest [e]

theorem readRoots_error (hread : readExpr limit (t :: ts) = (.error stop, rest)) :
    readRoots limit (t :: ts) = ⟨[], some stop, rest⟩ := by
  rw [readRoots, readRootsFrom_error hread]
  rfl

/-- Induction along the reading of a program. -/
theorem readRoots_induction (limit : Nat) {P : List Token → Prop} (nil : P [])
    (ok : ∀ t ts e rest, readExpr limit (t :: ts) = (.ok e, rest) → P rest → P (t :: ts))
    (error : ∀ t ts stop rest, readExpr limit (t :: ts) = (.error stop, rest) → P (t :: ts))
    (ts : List Token) : P ts := by
  induction hn : ts.length using Nat.strongRecOn generalizing ts with
  | _ n ih =>
      subst hn
      cases ts with
      | nil => exact nil
      | cons t ts =>
          rcases hread : readExpr limit (t :: ts) with ⟨stop | e, rest⟩
          · exact error t ts stop rest hread
          · exact ok t ts e rest hread (ih rest.length (length_lt_of_readExpr hread) rest rfl)

/-- Every expression of a program is made up of tokens of the program. -/
theorem derives_of_mem_readRoots (he : e ∈ (readRoots limit ts).exprs) :
    ∃ c, (∀ t ∈ c, t ∈ ts) ∧ Derives c e := by
  induction ts using readRoots_induction limit with
  | nil => cases he
  | ok t ts d rest hread ih =>
      obtain ⟨c, hc, hderives, -⟩ := readExpr_sound hread
      rw [readRoots_ok hread] at he
      rcases List.mem_cons.mp he with rfl | he
      · exact ⟨c, fun u hu => by rw [hc]; exact List.mem_append_left rest hu, hderives⟩
      · obtain ⟨c', hc', hderives'⟩ := ih he
        exact ⟨c', fun u hu => by rw [hc]; exact List.mem_append_right c (hc' u hu), hderives'⟩
  | error t ts stop rest hread =>
      rw [readRoots_error hread] at he
      cases he

/-! ### More tokens, and greater limits -/

/-- Tokens behind a complete program are read as a program of their own. -/
theorem readRoots_append (hstop : (readRoots limit ts).stop = none)
    (us : List Token) :
    readRoots limit (ts ++ us) = (readRoots limit us).prepend (readRoots limit ts).exprs := by
  induction ts using readRoots_induction limit with
  | nil => simp [readRoots_nil, Roots.prepend]
  | ok t ts e rest hread ih =>
      have hmore : readExpr limit (t :: (ts ++ us)) = (.ok e, rest ++ us) :=
        (readExpr_carries (Nat.le_refl limit) (t :: ts)).ok e rest hread
      rw [readRoots_ok hread] at hstop ⊢
      rw [List.cons_append, readRoots_ok hmore, ih hstop, Roots.prepend_prepend]
      rfl
  | error t ts stop rest hread =>
      rw [readRoots_error hread] at hstop
      cases hstop

/-- A greater limit changes nothing once the limit was not reached. -/
theorem readRoots_mono {limit' : Nat} (hle : limit ≤ limit')
    (hstop : (readRoots limit ts).stop ≠ some .tooDeep) :
    readRoots limit' ts = readRoots limit ts := by
  induction ts using readRoots_induction limit with
  | nil => rfl
  | ok t ts e rest hread ih =>
      rw [readRoots_ok hread] at hstop ⊢
      rw [readRoots_ok (readExpr_mono hle hread nofun), ih hstop]
  | error t ts stop rest hread =>
      rw [readRoots_error hread] at hstop ⊢
      exact readRoots_error (readExpr_mono hle hread (by simpa using hstop))

/-! ### Programs -/

variable {source : String} {es : List Expr}

theorem readAll_ok_iff :
    readAll limit source = .ok es ↔
      (readRoots limit (tokenize source)).stop = none ∧
        (readRoots limit (tokenize source)).exprs = es := by
  unfold readAll
  cases h : (readRoots limit (tokenize source)).stop <;> simp [h]

theorem readAll_error_iff :
    readAll limit source = .error stop ↔
      (readRoots limit (tokenize source)).stop = some stop := by
  unfold readAll
  cases h : (readRoots limit (tokenize source)).stop <;> simp [h]

theorem readAll_mono {limit' : Nat} (hle : limit ≤ limit')
    (hread : readAll limit source ≠ .error .tooDeep) :
    readAll limit' source = readAll limit source := by
  have hstop : (readRoots limit (tokenize source)).stop ≠ some .tooDeep :=
    fun h => hread (readAll_error_iff.mpr h)
  rw [readAll, readAll, readRoots_mono hle hstop]

theorem readAll_ok_mono {limit' : Nat} (hle : limit ≤ limit') (hread : readAll limit source = .ok es) :
    readAll limit' source = .ok es := by
  have hne : readAll limit source ≠ .error .tooDeep := by
    rw [hread]
    exact nofun
  rw [readAll_mono hle hne, hread]

/-- What is read from a complete program derives from all of its tokens. -/
theorem derivesAll_readRoots (hstop : (readRoots limit ts).stop = none) :
    DerivesAll ts (readRoots limit ts).exprs ∧
      Expr.heightItems (readRoots limit ts).exprs ≤ limit := by
  induction ts using readRoots_induction limit with
  | nil => exact ⟨.nil, Nat.zero_le limit⟩
  | ok t ts e rest hread ih =>
      rw [readRoots_ok hread] at hstop ⊢
      obtain ⟨hderives, hheight⟩ := ih hstop
      obtain ⟨c, hc, he, hle⟩ := readExpr_sound hread
      rw [hc]
      exact ⟨.cons he hderives, Nat.max_le.mpr ⟨hle, hheight⟩⟩
  | error t ts stop rest hread =>
      rw [readRoots_error hread] at hstop
      cases hstop

theorem readRoots_of_derivesAll (hderives : DerivesAll ts es)
    (hheight : Expr.heightItems es ≤ limit) : readRoots limit ts = ⟨es, none, []⟩ := by
  induction es generalizing ts with
  | nil =>
      cases hderives
      exact readRoots_nil
  | cons e es ih =>
      cases hderives with
      | @cons c ts _ _ he hes =>
          obtain ⟨hle, hheight⟩ := Nat.max_le.mp hheight
          have hread := he.readExpr_append limit hle ts
          obtain ⟨t, c, rfl⟩ := List.exists_cons_of_ne_nil he.ne_nil
          rw [List.cons_append] at hread ⊢
          rw [readRoots_ok hread, ih hes hheight]
          rfl

/-- **Programs are read by the grammar**, as far as the limit allows. -/
theorem readAll_ok_iff_derivesAll :
    readAll limit source = .ok es ↔
      DerivesAll (tokenize source) es ∧ Expr.heightItems es ≤ limit := by
  rw [readAll_ok_iff]
  constructor
  · rintro ⟨hstop, rfl⟩
    exact derivesAll_readRoots hstop
  · rintro ⟨hderives, hheight⟩
    rw [readRoots_of_derivesAll hderives hheight]
    exact ⟨rfl, rfl⟩

/-- A program that the grammar allows is read, unless it nests too deep. -/
theorem readAll_of_derivesAll (hderives : DerivesAll (tokenize source) es)
    (hdeep : readAll limit source ≠ .error .tooDeep) : readAll limit source = .ok es := by
  have hgreat : readAll (max limit (Expr.heightItems es)) source = .ok es :=
    readAll_ok_iff_derivesAll.mpr ⟨hderives, Nat.le_max_right _ _⟩
  rw [← readAll_mono (Nat.le_max_left limit (Expr.heightItems es)) hdeep, hgreat]

/-- A program that is complete, blanks, and another text: the roots of the first come in
front of what reading the second comes to. -/
theorem readAll_append_blank {a w : String} (ha : readAll limit a = .ok es) (hne : w ≠ "")
    (hw : ∀ c ∈ w.toList, Text.isBlank c = true) (b : String) :
    readAll limit (a ++ w ++ b) = (readAll limit b).map (es ++ ·) := by
  obtain ⟨hstop, rfl⟩ := readAll_ok_iff.mp ha
  have hroots : readRoots limit (tokenize (a ++ w ++ b)) =
      (readRoots limit (tokenize b)).prepend (readRoots limit (tokenize a)).exprs := by
    rw [tokenize_append_blank hne hw, readRoots_append hstop]
  cases hb : readAll limit b with
  | error stop =>
      refine readAll_error_iff.mpr ?_
      rw [hroots]
      exact readAll_error_iff.mp hb
  | ok ds =>
      obtain ⟨hstop', rfl⟩ := readAll_ok_iff.mp hb
      refine readAll_ok_iff.mpr ?_
      rw [hroots]
      exact ⟨hstop', rfl⟩

end FrameLisp
