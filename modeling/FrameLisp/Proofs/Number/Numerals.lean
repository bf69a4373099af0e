/-
FrameLisp/Proofs/Number/Numerals.lean

Which texts are whole numbers, and which numbers they are.

The second side is a grammar over the digits of given scripts, a script being given by the
code of its zero.  `Numeral zeros cs v` says that the characters `cs` are

    [+-]  digit { [_] digit }

with at most 4300 digits, leading zeros counted and underscores not, and that `v` is the
number they denote by their sign and the places of the digits.

The grammar puts underscores between digits (`Spelled`), while the reader goes from left to
right and remembers whether the last character was a digit.  `DigitRun` has one rule for
each of its steps: the reader follows these rules (`readDigits?_iff`), and a run that starts
before a digit spells digits (`digitRun_iff_spelled`).  So the reader accepts exactly the
numerals over all scripts (`integerOfChars?_iff`).

The scripts matter only through the digits that a text contains (`Numeral.over`).
-/
import FrameLisp.Number.Integer
import FrameLisp.Proofs.Number.Literals

namespace FrameLisp.Number

/-! ### Digits of given scripts -/

/-- `c` is the digit of value `d` in a script whose zero is among `zeros`. -/
def DigitIn (zeros : List ℕ) (c : Char) (d : ℕ) : Prop :=
  d < 10 ∧ ∃ z ∈ zeros, c.toNat = z + d

instance (zeros : List ℕ) (c : Char) (d : ℕ) : Decidable (DigitIn zeros c d) :=
  inferInstanceAs (Decidable (_ ∧ _))

theorem DigitIn.mono {zeros zeros' : List ℕ} (hsub : zeros ⊆ zeros') {c : Char} {d : ℕ}
    (h : DigitIn zeros c d) : DigitIn zeros' c d := by
  obtain ⟨hd, z, hz, hc⟩ := h
  exact ⟨hd, z, hsub hz, hc⟩

/-- No two scripts share a digit. -/
theorem zeroCodes_apart : zeroCodes.Pairwise fun z w => z + 10 ≤ w := by
  decide

theorem zeroCodes_unique {n z w : ℕ} (hz : z ∈ zeroCodes) (hw : w ∈ zeroCodes)
    (hzn : z ≤ n ∧ n ≤ z + 9) (hwn : w ≤ n ∧ n ≤ w + 9) : z = w := by
  by_contra hne
  -- the list is sorted, and the order in which the two come in it does not matter
  have hapart : zeroCodes.Pairwise fun z w => z + 10 ≤ w ∨ w + 10 ≤ z :=
    zeroCodes_apart.imp .inl
  have hsymm : Std.Symm fun z w => z + 10 ≤ w ∨ w + 10 ≤ z := ⟨fun _ _ => Or.symm⟩
  have := hapart.forall hz hw hne
  omega

theorem decimalDigit?_iff {c : Char} {d : ℕ} :
    decimalDigit? c = some d ↔ DigitIn zeroCodes c d := by
  rw [decimalDigit?, Option.map_eq_some_iff]
  constructor
  · rintro ⟨z, hfind, rfl⟩
    have hz : z ≤ c.toNat ∧ c.toNat ≤ z + 9 := by simpa using List.find?_some hfind
    exact ⟨by omega, z, List.mem_of_find?_eq_some hfind, by omega⟩
  · rintro ⟨hd, z, hz, hc⟩
    have hsome : (zeroCodes.find? fun z => z ≤ c.toNat && c.toNat ≤ z + 9).isSome = true := by
      rw [List.find?_isSome]
      exact ⟨z, hz, by simp only [Bool.and_eq_true, decide_eq_true_eq]; omega⟩
    obtain ⟨w, hfind⟩ := Option.isSome_iff_exists.mp hsome
    have hw : w ≤ c.toNat ∧ c.toNat ≤ w + 9 := by simpa using List.find?_some hfind
    have hwz := zeroCodes_unique (List.mem_of_find?_eq_some hfind) hz hw (by omega)
    exact ⟨w, hfind, by omega⟩

theorem not_digitIn_underscore {d : ℕ} : ¬ DigitIn zeroCodes '_' d := by
  rw [← decimalDigit?_iff]
  intro h
  cases h

theorem DigitIn.ne_sign {c : Char} {d : ℕ} (h : DigitIn zeroCodes c d) : c ≠ '+' ∧ c ≠ '-' := by
  rw [← decimalDigit?_iff] at h
  constructor <;> rintro rfl <;> cases h

/-! ### The grammar -/

/-- Digits with at most single underscores strictly between them, and their values. -/
inductive Spelled (zeros : List ℕ) : List ℕ → List Char → Prop
  | last {c : Char} {d : ℕ} (hc : DigitIn zeros c d) : Spelled zeros [d] [c]
  | next {c : Char} {cs : List Char} {d : ℕ} {ds : List ℕ} (hc : DigitIn zeros c d)
      (hcs : Spelled zeros ds cs) : Spelled zeros (d :: ds) (c :: cs)
  | joined {c : Char} {cs : List Char} {d : ℕ} {ds : List ℕ} (hc : DigitIn zeros c d)
      (hcs : Spelled zeros ds cs) : Spelled zeros (d :: ds) (c :: '_' :: cs)

/-- The whole number of a given sign and magnitude. -/
def withSign (negative : Bool) (n : ℕ) : ℤ := if negative then -(n : ℤ) else n

/-- A sign or none and at most 4300 digits, and the whole number they denote. -/
inductive Numeral (zeros : List ℕ) : List Char → ℤ → Prop
  | mk {s cs : List Char} {negative : Bool} {ds : List ℕ} (hs : OptionalSign s negative)
      (hcs : Spelled zeros ds cs) (hlength : ds.length ≤ 4300) :
      Numeral zeros (s ++ cs) (withSign negative (Nat.ofDigits 10 ds.reverse))

theorem Spelled.forall_mem {zeros ds : List ℕ} {cs : List Char} (h : Spelled zeros ds cs) :
    ∀ c ∈ cs, c = '_' ∨ ∃ d, DigitIn zeros c d := by
  induction h with
  | last hc => simpa using .inr ⟨_, hc⟩
  | next hc _ ih => exact List.forall_mem_cons.mpr ⟨.inr ⟨_, hc⟩, ih⟩
  | joined hc _ ih =>
      exact List.forall_mem_cons.mpr ⟨.inr ⟨_, hc⟩, List.forall_mem_cons.mpr ⟨.inl rfl, ih⟩⟩

theorem Spelled.exists_cons {zeros ds : List ℕ} {cs : List Char} (h : Spelled zeros ds cs) :
    ∃ c d tail, DigitIn zeros c d ∧ cs = c :: tail := by
  cases h with
  | last hc => exact ⟨_, _, _, hc, rfl⟩
  | next hc => exact ⟨_, _, _, hc, rfl⟩
  | joined hc => exact ⟨_, _, _, hc, rfl⟩

theorem Spelled.unsigned {ds : List ℕ} {cs : List Char} (h : Spelled zeroCodes ds cs) :
    Unsigned cs := by
  obtain ⟨c, d, tail, hc, rfl⟩ := h.exists_cons
  rintro _ ⟨⟩
  exact hc.ne_sign

/-- Digits are spelled alike over two lists of scripts that agree on the text. -/
theorem Spelled.over {zeros zeros' ds : List ℕ} {cs : List Char} (h : Spelled zeros ds cs)
    (hcs : ∀ c ∈ cs, ∀ d, DigitIn zeros c d → DigitIn zeros' c d) : Spelled zeros' ds cs := by
  induction h with
  | last hc => exact .last (hcs _ (List.mem_singleton_self _) _ hc)
  | next hc _ ih =>
      obtain ⟨hhead, htail⟩ := List.forall_mem_cons.mp hcs
      exact .next (hhead _ hc) (ih htail)
  | joined hc _ ih =>
      obtain ⟨hhead, htail⟩ := List.forall_mem_cons.mp hcs
      exact .joined (hhead _ hc) (ih (List.forall_mem_cons.mp htail).2)

theorem Numeral.over {zeros zeros' : List ℕ} {cs : List Char} {v : ℤ} (h : Numeral zeros cs v)
    (hcs : ∀ c ∈ cs, ∀ d, DigitIn zeros c d → DigitIn zeros' c d) : Numeral zeros' cs v := by
  obtain ⟨hs, hspelled, hlength⟩ := h
  exact .mk hs (hspelled.over fun c hc => hcs c (List.mem_append_right _ hc)) hlength

/-! ### The steps of the reader -/

/-- What is left to read, and its digits.  The flag says whether a digit came right before. -/
inductive DigitRun (zeros : List ℕ) : Bool → List ℕ → List Char → Prop
  | stop : DigitRun zeros true [] []
  | digit {afterDigit : Bool} {c : Char} {cs : List Char} {d : ℕ} {ds : List ℕ}
      (hc : DigitIn zeros c d) (hcs : DigitRun zeros true ds cs) :
      DigitRun zeros afterDigit (d :: ds) (c :: cs)
  | underscore {cs : List Char} {ds : List ℕ} (hcs : DigitRun zeros false ds cs) :
      DigitRun zeros true ds ('_' :: cs)

theorem Spelled.digitRun {zeros ds : List ℕ} {cs : List Char} (h : Spelled zeros ds cs)
    (afterDigit : Bool) : DigitRun zeros afterDigit ds cs := by
  induction h generalizing afterDigit with
  | last hc => exact .digit hc .stop
  | next hc _ ih => exact .digit hc (ih true)
  | joined hc _ ih => exact .digit hc (.underscore (ih false))

/-- After a digit the rest need not be spelled out itself, but together with that digit. -/
theorem DigitRun.spelled {zeros ds : List ℕ} {afterDigit : Bool} {cs : List Char}
    (h : DigitRun zeros afterDigit ds cs) :
    (afterDigit = false → Spelled zeros ds cs) ∧
      (afterDigit = true → ∀ c d, DigitIn zeros c d → Spelled zeros (d :: ds) (c :: cs)) := by
  induction h with
  | stop => exact ⟨Bool.noConfusion, fun _ _ _ hc => .last hc⟩
  | digit hc _ ih =>
      have hspelled := ih.2 rfl _ _ hc
      exact ⟨fun _ => hspelled, fun _ _ _ hbefore => .next hbefore hspelled⟩
  | underscore _ ih => exact ⟨Bool.noConfusion, fun _ _ _ hbefore => .joined hbefore (ih.1 rfl)⟩

theorem digitRun_iff_spelled {zeros ds : List ℕ} {cs : List Char} :
    DigitRun zeros false ds cs ↔ Spelled zeros ds cs :=
  ⟨fun h => h.spelled.1 rfl, fun h => h.digitRun false⟩

section Reader

variable {afterDigit : Bool} {c : Char} {cs : List Char} {ds done : List ℕ}

theorem digitRun_nil : DigitRun zeroCodes afterDigit ds [] ↔ afterDigit = true ∧ ds = [] := by
  constructor
  · intro h
    cases h
    exact ⟨rfl, rfl⟩
  · rintro ⟨rfl, rfl⟩
    exact .stop

theorem digitRun_underscore :
    DigitRun zeroCodes afterDigit ds ('_' :: cs) ↔
      afterDigit = true ∧ DigitRun zeroCodes false ds cs := by
  constructor
  · intro h
    cases h with
    | digit hc => exact absurd hc not_digitIn_underscore
    | underscore hcs => exact ⟨rfl, hcs⟩
  · rintro ⟨rfl, hcs⟩
    exact .underscore hcs

theorem digitRun_cons (hc : c ≠ '_') :
    DigitRun zeroCodes afterDigit ds (c :: cs) ↔
      ∃ d tail, ds = d :: tail ∧ decimalDigit? c = some d ∧ DigitRun zeroCodes true tail cs := by
  constructor
  · intro h
    cases h with
    | digit hdigit hcs => exact ⟨_, _, rfl, decimalDigit?_iff.mpr hdigit, hcs⟩
    | underscore => exact absurd rfl hc
  · rintro ⟨d, tail, rfl, hdigit, hcs⟩
    exact .digit (decimalDigit?_iff.mp hdigit) hcs

/-- The reader takes the steps of `DigitRun`, with the digits read before in front. -/
theorem readDigits?_iff {vs : List ℕ} :
    readDigits? done afterDigit cs = some vs ↔
      ∃ ds, DigitRun zeroCodes afterDigit ds cs ∧ vs = done.reverse ++ ds := by
  -- the values read so far and the flag change with every step
  induction cs generalizing done afterDigit with
  | nil =>
      simp only [digitRun_nil, readDigits?]
      cases afterDigit <;> simp [eq_comm]
  | cons c cs ih =>
      by_cases hunderscore : c = '_'
      · subst hunderscore
        simp only [digitRun_underscore, readDigits?]
        cases afterDigit <;> simp [ih]
      · rw [readDigits?, if_neg hunderscore]
        simp only [digitRun_cons hunderscore]
        cases decimalDigit? c with
        | none => simp
        | some d => simp [ih]

end Reader

/-! ### Whole numbers -/

/-- The reader weighs digits by their places. -/
theorem ofDigitValues_eq (ds : List ℕ) : ofDigitValues ds = Nat.ofDigits 10 ds.reverse := by
  rw [ofDigitValues, Nat.ofDigits_eq_foldr, List.foldr_reverse]
  simp only [add_comm, Nat.cast_id]

theorem integerOfChars?_of_none {cs : List Char} (h : readDigits? [] false (takeSign cs).2 = none) :
    integerOfChars? cs = none := by
  simp only [integerOfChars?, h]

theorem integerOfChars?_of_some {cs : List Char} {ds : List ℕ}
    (h : readDigits? [] false (takeSign cs).2 = some ds) :
    integerOfChars? cs =
      if ds.length ≤ 4300 then some (withSign (takeSign cs).1 (Nat.ofDigits 10 ds.reverse))
      else none := by
  simp only [integerOfChars?, h, ofDigitValues_eq]
  rfl

theorem readDigits?_spelled {cs : List Char} {ds : List ℕ} :
    readDigits? [] false cs = some ds ↔ Spelled zeroCodes ds cs := by
  simp [readDigits?_iff, digitRun_iff_spelled]

/-- The reader accepts exactly the numerals, and as the numbers they denote. -/
theorem integerOfChars?_iff {cs : List Char} {v : ℤ} :
    integerOfChars? cs = some v ↔ Numeral zeroCodes cs v := by
  constructor
  · intro h
    obtain ⟨s, hs, hcs⟩ := takeSign_spec cs
    cases hread : readDigits? [] false (takeSign cs).2 with
    | none => rw [integerOfChars?_of_none hread] at h; cases h
    | some ds =>
        rw [integerOfChars?_of_some hread, Option.ite_none_right_eq_some] at h
        obtain ⟨hlength, hv⟩ := h
        have hnumeral := Numeral.mk hs (readDigits?_spelled.mp hread) hlength
        rwa [← hcs, Option.some_inj.mp hv] at hnumeral
  · rintro @⟨s, cs, negative, ds, hs, hspelled, hlength⟩
    have hsign := takeSign_append hs hspelled.unsigned
    have hread : readDigits? [] false (takeSign (s ++ cs)).2 = some ds := by
      rw [hsign]
      exact readDigits?_spelled.mpr hspelled
    rw [integerOfChars?_of_some hread, hsign, if_pos hlength]

/-- Where there is nothing to strip off at either end, stripping changes nothing. -/
theorem strip_eq_self {p : Char → Bool} {cs : List Char} (h : ∀ c ∈ cs, p c = false) :
    ((cs.dropWhile p).reverse.dropWhile p).reverse = cs := by
  have hkeep : ∀ cs : List Char, (∀ c ∈ cs, p c = false) → cs.dropWhile p = cs := by
    intro cs hcs
    cases cs with
    | nil => rfl
    | cons c cs => rw [List.dropWhile_cons_of_neg (by simp [hcs c])]
  rw [hkeep cs h, hkeep _ fun c hc => h c (List.mem_reverse.mp hc), List.reverse_reverse]

theorem integer?_iff {text : String} (hblank : ∀ c ∈ text.toList, Text.isBlank c = false) {v : ℤ} :
    integer? text = some v ↔ Numeral zeroCodes text.toList v := by
  have hpadding : ∀ c ∈ text.toList, isPadding c = false := by
    intro c hc
    rw [isPadding, hblank c hc, Bool.false_and]
  rw [integer?, strip_eq_self hpadding, integerOfChars?_iff]

/-! ### Decimal text -/

theorem ofDigits_toString (n : ℕ) : ofDigits (toString n).toList = n := by
  have htext : (toString n).toList = Nat.toDigits 10 n := Nat.toList_repr
  rw [htext, ← toDigits_eq, ofDigits_toDigits]

/-- The decimal text of a number, however it is spelled, denotes that number. -/
theorem Spelled.numeral {zeros : List ℕ} {n k : ℕ} {s cs : List Char} (hs : OptionalSign s false)
    (hcs : Spelled zeros ((List.replicate k '0' ++ (toString n).toList).map digitValue) cs)
    (hlength : k + (toString n).length ≤ 4300) : Numeral zeros (s ++ cs) n := by
  have hvalue : Nat.ofDigits 10
      ((List.replicate k '0' ++ (toString n).toList).map digitValue).reverse = n := by
    rw [← ofDigits_eq, ofDigits_zeros_append, ofDigits_toString]
  have hnumeral := Numeral.mk hs hcs (by simpa [← String.length_toList] using hlength)
  rwa [hvalue] at hnumeral

/-! ### Three common scripts -/

/-- The zeros of the ASCII, the Arabic-Indic and the full-width digits. -/
def commonZeros : List ℕ := [0x30, 0x660, 0xFF10]

theorem commonZeros_subset : commonZeros ⊆ zeroCodes := by
  decide

/-- A text without digits of other scripts is read as a numeral over the common ones. -/
theorem integer?_common_iff {text : String} (hblank : ∀ c ∈ text.toList, Text.isBlank c = false)
    (hcommon : ∀ c ∈ text.toList, ∀ d, DigitIn zeroCodes c d → DigitIn commonZeros c d) {v : ℤ} :
    integer? text = some v ↔ Numeral commonZeros text.toList v := by
  rw [integer?_iff hblank]
  constructor
  · intro h
    exact h.over hcommon
  · intro h
    exact h.over fun _ _ _ => DigitIn.mono commonZeros_subset

/-- A digit of a common script is no digit of another script. -/
theorem DigitIn.common {c : Char} {d e : ℕ} (hc : DigitIn commonZeros c e)
    (h : DigitIn zeroCodes c d) : DigitIn commonZeros c d := by
  have heq : some d = some e := by
    rw [← decimalDigit?_iff.mpr h, decimalDigit?_iff.mpr (hc.mono commonZeros_subset)]
  rwa [Option.some_inj.mp heq]

theorem DigitIn.not_blank {c : Char} {d : ℕ} (h : DigitIn commonZeros c d) :
    Text.isBlank c = false := by
  obtain ⟨hd, z, hz, hc⟩ := h
  -- the blanks between the scripts are missed by all three
  have hz : z = 0x30 ∨ z = 0x660 ∨ z = 0xFF10 := by simpa [commonZeros] using hz
  simp only [Text.isBlank, Bool.or_eq_false_iff, Bool.and_eq_false_imp, decide_eq_true_eq,
    decide_eq_false_iff_not, beq_eq_false_iff_ne]
  omega

section Common

variable {cs : List Char} {v : ℤ}

theorem Numeral.ne_nil (h : Numeral commonZeros cs v) : cs ≠ [] := by
  obtain ⟨-, hspelled, -⟩ := h
  obtain ⟨c, d, tail, -, rfl⟩ := hspelled.exists_cons
  simp

theorem Numeral.not_blank (h : Numeral commonZeros cs v) : ∀ c ∈ cs, Text.isBlank c = false := by
  obtain ⟨hs, hspelled, -⟩ := h
  refine List.forall_mem_append.mpr ⟨?_, fun c hc => ?_⟩
  · cases hs <;> simp [Text.isBlank]
  · rcases hspelled.forall_mem c hc with rfl | ⟨d, hd⟩
    · rfl
    · exact hd.not_blank

theorem Numeral.digits_common (h : Numeral commonZeros cs v) :
    ∀ c ∈ cs, ∀ d, DigitIn zeroCodes c d → DigitIn commonZeros c d := by
  obtain ⟨hs, hspelled, -⟩ := h
  refine List.forall_mem_append.mpr ⟨fun c hc d hd => ?_, fun c hc d hd => ?_⟩
  · obtain ⟨hplus, hminus⟩ := hd.ne_sign
    cases hs <;> simp_all
  · rcases hspelled.forall_mem c hc with rfl | ⟨e, he⟩
    · exact absurd hd not_digitIn_underscore
    · exact he.common hd

end Common

end FrameLisp.Number
