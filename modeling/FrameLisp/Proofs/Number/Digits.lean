/-
FrameLisp/Proofs/Number/Digits.lean

Decimal digits, and those of the library.

Literals are read and numbers are written digit by digit, by functions that go from the
leading digit to the last one.  They are what the library has under other names,

    ofDigits ds   =  Nat.ofDigits 10 (the values of ds, the last one first)
    toDigits n    =  Nat.toDigits 10 n
    digitCount n  =  Nat.log 10 n + 1,

so that all that is needed of them can be taken from there.
-/
import FrameLisp.Number.Decimal
import Mathlib.Data.Nat.Digits.Defs
import Mathlib.Data.Nat.Log

namespace FrameLisp.Number

/-! ### Single digits -/

theorem natDigitChar_eq {d : ℕ} (hd : d < 10) : Nat.digitChar d = digitChar d := by
  revert d
  decide

theorem isDigit_digitChar {n : ℕ} (hn : n < 10) : (digitChar n).isDigit = true := by
  revert n
  decide

theorem digitValue_digitChar {n : ℕ} (hn : n < 10) : digitValue (digitChar n) = n := by
  revert n
  decide

theorem exists_digitChar {c : Char} (hc : c.isDigit = true) : ∃ d < 10, c = digitChar d := by
  have hrange : 48 ≤ c.toNat ∧ c.toNat ≤ 57 := by
    simpa [Char.isDigit, UInt32.le_iff_toNat_le] using hc
  refine ⟨c.toNat - 48, by omega, Char.toNat_inj.mp ?_⟩
  rw [← natDigitChar_eq (by omega), Nat.toNat_digitChar_of_lt_ten (by omega)]
  omega

theorem digitValue_lt {c : Char} (hc : c.isDigit = true) : digitValue c < 10 := by
  obtain ⟨d, hd, rfl⟩ := exists_digitChar hc
  rwa [digitValue_digitChar hd]

theorem digitValue_pos {c : Char} (hc : c.isDigit = true) (hne : c ≠ '0') : 0 < digitValue c := by
  obtain ⟨d, hd, rfl⟩ := exists_digitChar hc
  rw [digitValue_digitChar hd, Nat.pos_iff_ne_zero]
  rintro rfl
  exact hne rfl

/-! ### The number that digits denote -/

/-- Digits are weighed by their places. -/
theorem ofDigits_eq (ds : List Char) :
    ofDigits ds = Nat.ofDigits 10 (ds.map digitValue).reverse := by
  rw [ofDigits, Nat.ofDigits_eq_foldr, List.foldr_reverse, List.foldl_map]
  simp only [add_comm, Nat.cast_id]

theorem ofDigits_append (ds es : List Char) :
    ofDigits (ds ++ es) = ofDigits ds * 10 ^ es.length + ofDigits es := by
  rw [ofDigits_eq, ofDigits_eq, ofDigits_eq, List.map_append, List.reverse_append,
    Nat.ofDigits_append, List.length_reverse, List.length_map, mul_comm, add_comm]

theorem ofDigits_cons (c : Char) (cs : List Char) :
    ofDigits (c :: cs) = digitValue c * 10 ^ cs.length + ofDigits cs := by
  have happend := ofDigits_append [c] cs
  rwa [show ofDigits [c] = digitValue c by simp [ofDigits]] at happend

theorem ofDigits_snoc (cs : List Char) (c : Char) :
    ofDigits (cs ++ [c]) = 10 * ofDigits cs + digitValue c := by
  simp [ofDigits]

theorem ofDigits_zeros_append (k : ℕ) (ds : List Char) :
    ofDigits (List.replicate k '0' ++ ds) = ofDigits ds := by
  have hzero : digitValue '0' = 0 := rfl
  rw [ofDigits_eq, ofDigits_eq, List.map_append, List.map_replicate, hzero, List.reverse_append,
    List.reverse_replicate, Nat.ofDigits_append_replicate_zero]

theorem ofDigits_zeros (k : ℕ) : ofDigits (List.replicate k '0') = 0 := by
  have happend := ofDigits_zeros_append k []
  rwa [List.append_nil] at happend

theorem ofDigits_lt {ds : List Char} (hds : ∀ c ∈ ds, c.isDigit = true) :
    ofDigits ds < 10 ^ ds.length := by
  have hlt : ∀ d ∈ (ds.map digitValue).reverse, d < 10 := by
    simpa using fun c hc => digitValue_lt (hds c hc)
  rw [ofDigits_eq]
  simpa using Nat.ofDigits_lt_base_pow_length (by decide) hlt

/-! ### The digits of a number -/

theorem toDigits_eq (n : ℕ) : toDigits n = Nat.toDigits 10 n := by
  fun_induction toDigits n with
  | case1 n h => rw [Nat.toDigits_of_lt_base h, natDigitChar_eq h]
  | case2 n h ih =>
      have hdigit := natDigitChar_eq (Nat.mod_lt n (show 0 < 10 by decide))
      rw [Nat.toDigits_of_base_le (by decide) (Nat.le_of_not_lt h), ih, hdigit]

theorem isDigit_toDigits (n : ℕ) : ∀ c ∈ toDigits n, c.isDigit = true := by
  intro c hc
  rw [toDigits_eq] at hc
  exact Nat.isDigit_of_mem_toDigits (by decide) (by decide) hc

theorem toDigits_ne_nil (n : ℕ) : toDigits n ≠ [] := by
  rw [toDigits_eq]
  exact Nat.toDigits_ne_nil

theorem ofDigits_toDigits (n : ℕ) : ofDigits (toDigits n) = n := by
  rw [toDigits_eq]
  exact Nat.ofDigitChars_ten_toDigits

/-! ### How many digits there are -/

theorem digitCount_eq (n : ℕ) : digitCount n = Nat.log 10 n + 1 := by
  fun_induction digitCount n with
  | case1 n h => rw [Nat.log_of_lt h]
  | case2 n h ih => rw [ih, Nat.log_of_one_lt_of_le (by decide) (Nat.le_of_not_lt h)]

theorem one_le_digitCount (n : ℕ) : 1 ≤ digitCount n := by
  rw [digitCount_eq]
  exact Nat.le_add_left 1 _

theorem pow_digitCount_le {n : ℕ} (hn : 0 < n) : 10 ^ (digitCount n - 1) ≤ n := by
  rw [digitCount_eq]
  exact Nat.pow_log_le_self 10 hn.ne'

theorem lt_pow_digitCount (n : ℕ) : n < 10 ^ digitCount n := by
  rw [digitCount_eq]
  exact Nat.lt_pow_succ_log_self (by decide) n

end FrameLisp.Number
