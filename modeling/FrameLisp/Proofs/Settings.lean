/-
FrameLisp/Proofs/Settings.lean

The limit on nesting is read exactly.

The variable for the limit holds a text.  If the text is neither empty nor has blanks in it,
there are three outcomes, and the grammar of numerals tells which one it is:

    a numeral above zero       that limit
    any other numeral          a report that the limit must be positive
    no numeral                 a report that the limit must be an integer

Both reports quote what they are about.  The wording of a report determines its fault, so a
report can be recognised by its text alone (`limitNotPositive_message_inj`,
`limitNotInteger_message_ne`).
-/
import FrameLisp.Settings
import FrameLisp.Proofs.Number.Numerals

namespace FrameLisp

open Number

variable {vars : Variables} {text : String}

/-! ### The value of a variable -/

theorem Text.trim_eq_self (hblank : ∀ c ∈ text.toList, isBlank c = false) :
    trim text = text := by
  rw [trim, trimChars, strip_eq_self hblank, String.ofList_toList]

theorem Variables.value?_eq {name : String} (hlookup : vars.lookup name = some text)
    (hne : text ≠ "") (hblank : ∀ c ∈ text.toList, Text.isBlank c = false) :
    vars.value? name = some text := by
  rw [Variables.value?, hlookup, Option.filter_some_pos]
  simpa [Text.trim_eq_self hblank] using hne

/-! ### The three outcomes -/

theorem Variables.limit?_cases (hvalue : vars.value? limitVariable = some text) :
    (∃ n : ℕ, 0 < n ∧ integer? text = some (n : ℤ) ∧ vars.limit? = .ok (some n)) ∨
      (∃ v : ℤ, v ≤ 0 ∧ integer? text = some v ∧ vars.limit? = .error (.limitNotPositive v)) ∨
      (integer? text = none ∧ vars.limit? = .error (.limitNotInteger text)) := by
  cases hread : integer? text with
  | none =>
      refine .inr (.inr ⟨rfl, ?_⟩)
      simp only [Variables.limit?, hvalue, hread]
  | some v =>
      rcases le_or_gt v 0 with hv | hv
      · refine .inr (.inl ⟨v, hv, rfl, ?_⟩)
        simp only [Variables.limit?, hvalue, hread, if_pos hv]
      · lift v to ℕ using hv.le
        refine .inl ⟨v, Int.natCast_pos.mp hv, rfl, ?_⟩
        simp only [Variables.limit?, hvalue, hread, if_neg hv.not_ge, Int.toNat_natCast]

/-! ### Reports -/

/-- Asking for the limit fails with this message. -/
def Variables.ReportsLimit (vars : Variables) (message : String) : Prop :=
  ∃ fault, vars.limit? = .error fault ∧ fault.message = message

theorem limitNotPositive_message_inj {v w : ℤ} :
    (SettingFault.limitNotPositive v).message = (SettingFault.limitNotPositive w).message ↔
      v = w := by
  simp only [SettingFault.message, String.append_right_inj, Int.toString_eq_repr, Int.repr_inj]

theorem limitNotInteger_message_ne {got : String} {v : ℤ} :
    (SettingFault.limitNotInteger got).message ≠ (SettingFault.limitNotPositive v).message := by
  simp only [SettingFault.message, String.append_assoc, ne_eq, String.append_right_inj]
  intro h
  have hchars := congrArg String.toList h
  simp at hchars

section Outcomes

variable (hvalue : vars.value? limitVariable = some text)
include hvalue

theorem Variables.limit?_ok_iff {n : ℕ} :
    vars.limit? = .ok (some n) ↔ 0 < n ∧ integer? text = some (n : ℤ) := by
  rcases limit?_cases hvalue with ⟨m, hm, hread, hlimit⟩ | ⟨v, hv, hread, hlimit⟩ | ⟨hread, hlimit⟩
  · simp only [hlimit, hread, Except.ok.injEq, Option.some.injEq, Nat.cast_inj, iff_and_self]
    rintro rfl
    exact hm
  · simp only [hlimit, hread, reduceCtorEq, Option.some.injEq, false_iff, not_and]
    omega
  · simp [hlimit, hread]

theorem Variables.limit?_error_iff {fault : SettingFault} :
    vars.limit? = .error fault ↔
      (∃ v ≤ 0, integer? text = some v ∧ fault = .limitNotPositive v) ∨
        (integer? text = none ∧ fault = .limitNotInteger text) := by
  rcases limit?_cases hvalue with ⟨m, hm, hread, hlimit⟩ | ⟨v, hv, hread, hlimit⟩ | ⟨hread, hlimit⟩
  · simp [hlimit, hread, hm.ne']
  · simp [hlimit, hread, hv, eq_comm]
  · simp [hlimit, hread, eq_comm]

theorem Variables.reportsLimit_positive_iff {v : ℤ} :
    vars.ReportsLimit (limitVariable ++ " must be positive, got " ++ toString v) ↔
      v ≤ 0 ∧ integer? text = some v := by
  constructor
  · rintro ⟨fault, hfault, hmessage⟩
    rcases (limit?_error_iff hvalue).mp hfault with ⟨w, hw, hread, rfl⟩ | ⟨-, rfl⟩
    · obtain rfl := limitNotPositive_message_inj.mp hmessage
      exact ⟨hw, hread⟩
    · exact absurd hmessage limitNotInteger_message_ne
  · rintro ⟨hv, hread⟩
    exact ⟨_, (limit?_error_iff hvalue).mpr (.inl ⟨v, hv, hread, rfl⟩), rfl⟩

theorem Variables.reportsLimit_integer_iff :
    vars.ReportsLimit (limitVariable ++ " must be an integer, got " ++ Text.quoted text) ↔
      integer? text = none := by
  constructor
  · rintro ⟨fault, hfault, hmessage⟩
    rcases (limit?_error_iff hvalue).mp hfault with ⟨w, -, -, rfl⟩ | ⟨hread, -⟩
    · exact absurd hmessage.symm limitNotInteger_message_ne
    · exact hread
  · intro hread
    exact ⟨_, (limit?_error_iff hvalue).mpr (.inr ⟨hread, rfl⟩), rfl⟩

end Outcomes

/-! ### The limit -/

theorem Variables.limit?_ok_iff_numeral (hlookup : vars.lookup limitVariable = some text)
    (hne : text ≠ "") (hblank : ∀ c ∈ text.toList, Text.isBlank c = false)
    (hcommon : ∀ c ∈ text.toList, ∀ d, DigitIn zeroCodes c d → DigitIn commonZeros c d) {n : ℕ} :
    vars.limit? = .ok (some n) ↔ 0 < n ∧ Numeral commonZeros text.toList n := by
  rw [limit?_ok_iff (value?_eq hlookup hne hblank), integer?_common_iff hblank hcommon]

/-- **The limit is read exactly.**  A text in the common scripts sets the limit to the number it
denotes, if it is a numeral above zero, and is reported otherwise.  The decimal text of a
number above zero sets this number, also with zeros in front, underscores between its digits
and digits of any of the scripts. -/
theorem limit_read_exactly (vars : Variables) (text : String)
    (hlookup : vars.lookup limitVariable = some text) :
    (text ≠ "" → (∀ c ∈ text.toList, Text.isBlank c = false) →
      (∀ c ∈ text.toList, ∀ d, DigitIn zeroCodes c d → DigitIn commonZeros c d) →
        (∀ n : ℕ, vars.limit? = .ok (some n) ↔ 0 < n ∧ Numeral commonZeros text.toList n) ∧
        (∀ v : ℤ, vars.ReportsLimit (limitVariable ++ " must be positive, got " ++ toString v) ↔
          v ≤ 0 ∧ Numeral commonZeros text.toList v) ∧
        (vars.ReportsLimit (limitVariable ++ " must be an integer, got " ++ Text.quoted text) ↔
          ¬∃ v, Numeral commonZeros text.toList v)) ∧
      ∀ (n k : ℕ) (s cs : List Char), 0 < n → k + (toString n).length ≤ 4300 →
        OptionalSign s false →
        Spelled commonZeros ((List.replicate k '0' ++ (toString n).toList).map digitValue) cs →
        text.toList = s ++ cs → vars.limit? = .ok (some n) := by
  constructor
  · intro hne hblank hcommon
    have hvalue := Variables.value?_eq hlookup hne hblank
    refine ⟨fun n => Variables.limit?_ok_iff_numeral hlookup hne hblank hcommon, fun v => ?_, ?_⟩
    · rw [Variables.reportsLimit_positive_iff hvalue, integer?_common_iff hblank hcommon]
    · rw [Variables.reportsLimit_integer_iff hvalue, Option.eq_none_iff_forall_ne_some, not_exists]
      simp only [ne_eq, integer?_common_iff hblank hcommon]
  · intro n k s cs hn hlength hs hcs htext
    have hnumeral : Numeral commonZeros text.toList n := by
      rw [htext]
      exact hcs.numeral hs hlength
    have hne : text ≠ "" := fun h => hnumeral.ne_nil (by rw [h]; rfl)
    exact (Variables.limit?_ok_iff_numeral hlookup hne hnumeral.not_blank
      hnumeral.digits_common).mpr ⟨hn, hnumeral⟩

/-- Twelve with a sign, a zero in front, an underscore and digits of three scripts. -/
theorem limit_read_exactly_mixed :
    List.lookup limitVariable [(limitVariable, "+٠1_２")] = some "+٠1_２" ∧
      Variables.limit? [(limitVariable, "+٠1_２")] = .ok (some 12) ∧
      Numeral commonZeros "+٠1_２".toList 12 ∧
      ¬Variables.ReportsLimit [(limitVariable, "+٠1_２")]
        (limitVariable ++ " must be an integer, got " ++ Text.quoted "+٠1_２") := by
  have htext : "+٠1_２".toList = ['+'] ++ ['٠', '1', '_', '２'] := rfl
  have hvalues : (List.replicate 1 '0' ++ (toString 12).toList).map digitValue = [0, 1, 2] := rfl
  have hspelled : Spelled commonZeros
      ((List.replicate 1 '0' ++ (toString 12).toList).map digitValue) ['٠', '1', '_', '２'] := by
    rw [hvalues]
    exact .next (by decide) (.joined (by decide) (.last (by decide)))
  have hlength : 1 + (toString 12).length ≤ 4300 := by
    rw [show (toString 12).length = 2 from rfl]
    norm_num
  have hnumeral : Numeral commonZeros "+٠1_２".toList 12 := hspelled.numeral .plus hlength
  obtain ⟨hexact, hback⟩ := limit_read_exactly [(limitVariable, "+٠1_２")] "+٠1_２"
    List.lookup_cons_self
  have hinteger := (hexact (by decide) hnumeral.not_blank hnumeral.digits_common).2.2
  exact ⟨List.lookup_cons_self, hback 12 1 _ _ (by decide) hlength .plus hspelled htext, hnumeral,
    fun h => hinteger.mp h ⟨12, hnumeral⟩⟩

end FrameLisp
