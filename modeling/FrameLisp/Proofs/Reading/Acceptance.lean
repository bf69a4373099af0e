/-
FrameLisp/Proofs/Reading/Acceptance.lean

The reader accepts exactly the grammar.

Where its limit is not reached, the reader and the grammar agree on every list of
tokens, without a word about how deep anything nests: a greater limit lets the
reader take what the grammar derives, and by stability it has taken it already.  The
same holds of whole programs, which are one expression or blank.
-/
import FrameLisp.Proofs.Reading.Stability

namespace FrameLisp

/-- The whole of the tokens makes up the expression; no tokens at all make up `nil`. -/
def DerivesProgram (ts : List Token) (e : Expr) : Prop :=
  ts = [] ∧ e = .nil ∨ Derives ts e

theorem readExpr_ok_iff_derives {limit : Nat} {ts : List Token}
    (h : Shallow (readExpr limit) ts) (e : Expr) (rest : List Token) :
    readExpr limit ts = (.ok e, rest) ↔ ∃ c, ts = c ++ rest ∧ Derives c e := by
  constructor
  · intro hread
    obtain ⟨c, hts, hc, -⟩ := readExpr_sound hread
    exact ⟨c, hts, hc⟩
  · rintro ⟨c, rfl, hc⟩
    -- the limit at hand and one that is high enough for `e` give the same answer
    rcases hread : readExpr limit (c ++ rest) with ⟨r, left⟩
    have hshallow : r ≠ .error .tooDeep := by
      unfold Shallow at h
      rwa [hread] at h
    rw [← readExpr_mono (Nat.le_max_left limit e.height) hread hshallow]
    exact hc.readExpr_append _ (Nat.le_max_right limit e.height) rest

theorem exists_fault_iff {α : Type} {r : Except ReadStop α} (h : r ≠ .error .tooDeep) :
    (∃ cause, r = .error (.fault cause)) ↔ ∀ a, r ≠ .ok a := by
  constructor
  · rintro ⟨cause, rfl⟩
    exact nofun
  · intro hok
    match r with
    | .ok a => exact absurd rfl (hok a)
    | .error .tooDeep => exact absurd rfl h
    | .error (.fault cause) => exact ⟨cause, rfl⟩

theorem readExpr_fault_iff {limit : Nat} {ts : List Token} (h : Shallow (readExpr limit) ts) :
    (∃ cause, (readExpr limit ts).1 = .error (.fault cause)) ↔
      ¬∃ c rest e, ts = c ++ rest ∧ Derives c e := by
  rw [exists_fault_iff h]
  constructor
  · rintro hok ⟨c, rest, e, hc⟩
    exact hok e (congrArg Prod.fst ((readExpr_ok_iff_derives h e rest).mpr ⟨c, hc⟩))
  · intro hnone e he
    obtain ⟨c, hc⟩ := (readExpr_ok_iff_derives h e _).mp (Prod.ext he rfl)
    exact hnone ⟨c, _, e, hc⟩

/-! ### Programs of one expression -/

theorem readOne_blank {limit : Nat} {source : String} (h : tokenize source = []) :
    readOne limit source = .ok .nil := by
  rw [readOne, h]

variable {limit : Nat} {source : String}

/-- One expression is read, and no token may be left. -/
theorem readOne_eq (h : tokenize source ≠ []) :
    readOne limit source =
      match readExpr limit (tokenize source) with
      | (.error stop, _) => .error stop
      | (.ok e, []) => .ok e
      | (.ok _, token :: _) =>
          .error (.fault (if token = ")" then .strayClosing else .trailing token)) := by
  rw [readOne]
  split
  · next hnil => exact absurd hnil h
  · rfl

theorem readOne_ok_iff (h : tokenize source ≠ []) (e : Expr) :
    readOne limit source = .ok e ↔ readExpr limit (tokenize source) = (.ok e, []) := by
  rw [readOne_eq h]
  rcases readExpr limit (tokenize source) with ⟨stop | e', _ | ⟨t, left⟩⟩
  all_goals constructor <;> intro heq <;> cases heq <;> rfl

theorem readOne_shallow_iff (h : tokenize source ≠ []) :
    readOne limit source ≠ .error .tooDeep ↔ Shallow (readExpr limit) (tokenize source) := by
  rw [readOne_eq h, Shallow]
  rcases readExpr limit (tokenize source) with ⟨stop | e, _ | ⟨t, left⟩⟩
  all_goals simp

theorem readOne_ok_iff_derivesProgram (hlimit : readOne limit source ≠ .error .tooDeep)
    (e : Expr) : readOne limit source = .ok e ↔ DerivesProgram (tokenize source) e := by
  by_cases h : tokenize source = []
  · have hnone : ¬Derives [] e := fun hd => hd.ne_nil rfl
    simp [readOne_blank h, h, DerivesProgram, hnone, eq_comm]
  · have hshallow := (readOne_shallow_iff h).mp hlimit
    simp [readOne_ok_iff h, readExpr_ok_iff_derives hshallow, DerivesProgram, h]

theorem readOne_fault_iff (hlimit : readOne limit source ≠ .error .tooDeep) :
    (∃ cause, readOne limit source = .error (.fault cause)) ↔
      ¬∃ e, DerivesProgram (tokenize source) e := by
  rw [exists_fault_iff hlimit, not_exists]
  exact forall_congr' fun e => not_congr (readOne_ok_iff_derivesProgram hlimit e)

theorem readOne_shallow (h : weight (tokenize source) < limit) :
    readOne limit source ≠ .error .tooDeep := by
  by_cases hblank : tokenize source = []
  · rw [readOne_blank hblank]
    exact nofun
  · exact (readOne_shallow_iff hblank).mpr (readExpr_shallow h)

/-! ### The reader is the grammar -/

/-- Unless it reaches its limit, the reader returns an expression and leaves a rest if
and only if the tokens before that rest derive the expression; there is at most one
such way to split the tokens; and where there is none, reading fails with a fault of
the text.  A program of one expression is read if and only if all its tokens derive
it, or if it is blank, and otherwise fails with a fault of the text.  High enough
limits are never reached. -/
theorem readExpr_accepts_grammar :
    (∀ limit ts, Shallow (readExpr limit) ts →
      (∀ e rest, readExpr limit ts = (.ok e, rest) ↔ ∃ c, ts = c ++ rest ∧ Derives c e) ∧
      ((∃ cause, (readExpr limit ts).1 = .error (.fault cause)) ↔
        ¬∃ c rest e, ts = c ++ rest ∧ Derives c e)) ∧
    (∀ ts c₁ rest₁ e₁ c₂ rest₂ e₂, ts = c₁ ++ rest₁ → Derives c₁ e₁ →
      ts = c₂ ++ rest₂ → Derives c₂ e₂ → c₁ = c₂ ∧ e₁ = e₂) ∧
    (∀ limit source, readOne limit source ≠ .error .tooDeep →
      (∀ e, readOne limit source = .ok e ↔ DerivesProgram (tokenize source) e) ∧
      ((∃ cause, readOne limit source = .error (.fault cause)) ↔
        ¬∃ e, DerivesProgram (tokenize source) e)) ∧
    (∀ ts, ∃ enough, ∀ limit, enough ≤ limit → Shallow (readExpr limit) ts) ∧
    (∀ source, ∃ enough, ∀ limit, enough ≤ limit →
      readOne limit source ≠ .error .tooDeep) := by
  refine ⟨?_, ?_, ?_, ?_, ?_⟩
  · intro limit ts h
    exact ⟨readExpr_ok_iff_derives h, readExpr_fault_iff h⟩
  · rintro ts c₁ rest₁ e₁ c₂ rest₂ e₂ rfl h₁ heq h₂
    exact h₁.unique h₂ heq
  · intro limit source h
    exact ⟨readOne_ok_iff_derivesProgram h, readOne_fault_iff h⟩
  · intro ts
    exact ⟨weight ts + 1, fun limit hlimit => readExpr_shallow hlimit⟩
  · intro source
    exact ⟨weight (tokenize source) + 1, fun limit hlimit => readOne_shallow hlimit⟩

end FrameLisp
