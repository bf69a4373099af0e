/-
FrameLisp/Proofs/Number/Literals.lean

Which tokens are numbers, and which numbers they are.

The second side is a grammar.  `Written cs negative v` says that the characters `cs` are

    [+-]  ( digits [ . [digits] ]  |  . digits )  [ (e|E) [+-] digits ]

with at least one digit wherever `digits` is not in brackets, that there is a minus in
front if `negative` holds, and that the part after the sign denotes the rational number `v`.
The reader takes a token apart from the left, each part as long as it can be.  What it
accepts the grammar derives (`Literal.written_of_ofChars?`), and what the grammar derives it
accepts, as a decimal of the value that the grammar gives (`Written.ofChars?`); so what is
written is unambiguous.

The number read is this value rounded.  Rounding is a matter of the value alone: it does
not depend on how many digits there are or on how large the exponent is.
-/
import FrameLisp.Proofs.Number.Values

namespace FrameLisp.Number

/-! ### The grammar -/

/-- A run of decimal digits, possibly empty, and the number it denotes. -/
inductive Digits : List Char → ℕ → Prop
  | nil : Digits [] 0
  | snoc {cs : List Char} {n d : ℕ} (h : Digits cs n) (hd : d < 10) :
      Digits (cs ++ [Nat.digitChar d]) (10 * n + d)

/-- Digits with or without a point, and the number they denote. -/
inductive Mantissa : List Char → ℚ → Prop
  | whole {cs : List Char} {n : ℕ} (hcs : Digits cs n) (hne : cs ≠ []) : Mantissa cs n
  | point {cs ds : List Char} {n m : ℕ} (hcs : Digits cs n) (hne : cs ≠ []) (hds : Digits ds m) :
      Mantissa (cs ++ '.' :: ds) (n + m / 10 ^ ds.length)
  | fraction {ds : List Char} {m : ℕ} (hds : Digits ds m) (hne : ds ≠ []) :
      Mantissa ('.' :: ds) (m / 10 ^ ds.length)

/-- An exponent or none, and the power of ten it stands for. -/
inductive Exponent : List Char → ℤ → Prop
  | absent : Exponent [] 0
  | present {c : Char} {s ds : List Char} {negative : Bool} {n : ℕ} (hc : c = 'e' ∨ c = 'E')
      (hs : OptionalSign s negative) (hds : Digits ds n) (hne : ds ≠ []) :
      Exponent (c :: (s ++ ds)) (if negative then -(n : ℤ) else n)

/-- A literal with its sign and the magnitude it denotes. -/
inductive Written : List Char → Bool → ℚ → Prop
  | mk {s m e : List Char} {negative : Bool} {v : ℚ} {k : ℤ} (hs : OptionalSign s negative)
      (hm : Mantissa m v) (he : Exponent e k) : Written (s ++ (m ++ e)) negative (v * 10 ^ k)

/-! ### Digits -/

theorem digits_iff {cs : List Char} {n : ℕ} :
    Digits cs n ↔ (∀ c ∈ cs, c.isDigit = true) ∧ ofDigits cs = n := by
  constructor
  · intro h
    induction h with
    | nil => exact ⟨nofun, rfl⟩
    | snoc _ hd ih =>
        rw [natDigitChar_eq hd]
        refine ⟨List.forall_mem_append.mpr ⟨ih.1, by simpa using isDigit_digitChar hd⟩, ?_⟩
        rw [ofDigits_snoc, ih.2, digitValue_digitChar hd]
  · rintro ⟨hcs, rfl⟩
    induction cs using List.reverseRecOn with
    | nil => exact .nil
    | append_singleton cs c ih =>
        obtain ⟨hinit, hlast⟩ := List.forall_mem_append.mp hcs
        obtain ⟨d, hd, rfl⟩ := exists_digitChar (hlast c (List.mem_singleton_self c))
        rw [ofDigits_snoc, digitValue_digitChar hd, ← natDigitChar_eq hd]
        exact .snoc (ih hinit) hd

/-! ### Exponents -/

theorem takeSign_spec (cs : List Char) :
    ∃ s, OptionalSign s (takeSign cs).1 ∧ cs = s ++ (takeSign cs).2 := by
  unfold takeSign
  split
  · exact ⟨_, .plus, rfl⟩
  · exact ⟨_, .minus, rfl⟩
  · exact ⟨_, .absent, rfl⟩

theorem readExponent?_iff {cs : List Char} {k : ℤ} :
    readExponent? cs = some k ↔ Exponent cs k := by
  constructor
  · intro h
    cases cs with
    | nil =>
        cases h
        exact .absent
    | cons c cs =>
        rw [readExponent?] at h
        obtain ⟨s, hs, heq⟩ := takeSign_spec cs
        split at h
        · next hc =>
            simp only at h
            split at h
            · next hdigits =>
                cases h
                have hds := digits_iff.mpr ⟨List.all_eq_true.mp hdigits.2, rfl⟩
                have hexponent := Exponent.present hc hs hds hdigits.1
                rwa [← heq] at hexponent
            · cases h
        · cases h
  · intro h
    cases h with
    | absent => rfl
    | present hc hs hds hne =>
        obtain ⟨hdigits, rfl⟩ := digits_iff.mp hds
        have hunsigned := unsigned_digits hne hdigits []
        rw [List.append_nil] at hunsigned
        rw [readExponent?, if_pos hc, takeSign_append hs hunsigned]
        exact if_pos ⟨hne, List.all_eq_true.mpr hdigits⟩

theorem Exponent.cases_head {e : List Char} {k : ℤ} (h : Exponent e k) :
    e = [] ∨ ∃ c cs, e = c :: cs ∧ (c = 'e' ∨ c = 'E') := by
  cases h with
  | absent => exact .inl rfl
  | present hc => exact .inr ⟨_, _, rfl, hc⟩

theorem Exponent.endsDigits {e : List Char} {k : ℤ} (h : Exponent e k) : EndsDigits e := by
  rcases h.cases_head with rfl | ⟨c, cs, rfl, rfl | rfl⟩ <;> simp [EndsDigits]

theorem Exponent.takeFraction_eq {e : List Char} {k : ℤ} (h : Exponent e k) :
    takeFraction e = ([], e) := by
  rcases h.cases_head with rfl | ⟨c, cs, rfl, rfl | rfl⟩ <;> rfl

/-! ### The reader against the grammar -/

/-- The value of a decimal by the digits before and after the point. -/
theorem value_digits (cs ds : List Char) (k : ℤ) :
    Decimal.value ⟨ofDigits (cs ++ ds), k - (ds.length : ℤ)⟩ =
      (ofDigits cs + ofDigits ds / 10 ^ ds.length) * 10 ^ k := by
  rw [Decimal.value, ofDigits_append, zpow_sub₀ (by norm_num), zpow_natCast]
  push_cast
  field_simp

theorem takeFraction_spec (cs : List Char) :
    (cs = '.' :: ((takeFraction cs).1 ++ (takeFraction cs).2) ∧
        ∀ c ∈ (takeFraction cs).1, c.isDigit = true) ∨ takeFraction cs = ([], cs) := by
  unfold takeFraction
  split
  · refine .inl ⟨?_, fun c hc => List.mem_takeWhile_imp hc⟩
    rw [List.takeWhile_append_dropWhile]
  · exact .inr rfl

theorem mantissa_takeFraction {whole cs : List Char} (hwhole : ∀ c ∈ whole, c.isDigit = true)
    (hne : ¬ (whole = [] ∧ (takeFraction cs).1 = [])) :
    ∃ m, whole ++ cs = m ++ (takeFraction cs).2 ∧
      Mantissa m
        (ofDigits whole + ofDigits (takeFraction cs).1 / 10 ^ (takeFraction cs).1.length) := by
  have hdigits := digits_iff.mpr ⟨hwhole, rfl⟩
  rcases takeFraction_spec cs with ⟨hcs, hds⟩ | hnone
  · generalize takeFraction cs = fraction at hne hcs hds
    obtain ⟨ds, tail⟩ := fraction
    have hds := digits_iff.mpr ⟨hds, rfl⟩
    subst hcs
    by_cases hempty : whole = []
    · subst hempty
      refine ⟨'.' :: ds, rfl, ?_⟩
      rw [show ofDigits [] = 0 from rfl, Nat.cast_zero, zero_add]
      exact .fraction hds fun h => hne ⟨rfl, h⟩
    · exact ⟨whole ++ '.' :: ds, by simp, .point hdigits hempty hds⟩
  · rw [hnone] at hne ⊢
    refine ⟨whole, rfl, ?_⟩
    rw [show ofDigits [] = 0 from rfl, Nat.cast_zero, zero_div, add_zero]
    exact .whole hdigits fun h => hne ⟨h, rfl⟩

theorem Literal.written_of_ofChars? {cs : List Char} {l : Literal} (h : ofChars? cs = some l) :
    Written cs l.negative l.magnitude.value := by
  simp only [ofChars?] at h
  split at h
  · cases h
  · next hne =>
      obtain ⟨k, hexponent, rfl⟩ := Option.map_eq_some_iff.mp h
      obtain ⟨s, hs, hcs⟩ := takeSign_spec cs
      obtain ⟨m, hrest, hm⟩ := mantissa_takeFraction (fun c hc => List.mem_takeWhile_imp hc) hne
      rw [List.takeWhile_append_dropWhile] at hrest
      have hwritten := Written.mk hs hm (readExponent?_iff.mp hexponent)
      rwa [← hrest, ← hcs, ← value_digits] at hwritten

theorem Written.ofChars? {cs : List Char} {negative : Bool} {v : ℚ} (h : Written cs negative v) :
    ∃ d : Decimal, Literal.ofChars? cs = some ⟨negative, d⟩ ∧ d.value = v := by
  obtain @⟨s, m, e, _, v, k, hs, hm, he⟩ := h
  have hexponent := readExponent?_iff.mpr he
  cases hm with
  | whole hcs hne =>
      obtain ⟨hwhole, rfl⟩ := digits_iff.mp hcs
      have hread := Literal.ofChars?_parts hs (unsigned_digits hne hwhole e) hwhole he.endsDigits
        he.takeFraction_eq (fun h => hne h.1) hexponent
      refine ⟨_, hread, ?_⟩
      rw [value_digits]
      simp [ofDigits]
  | point hcs hne hds =>
      obtain ⟨hwhole, rfl⟩ := digits_iff.mp hcs
      obtain ⟨hfraction, rfl⟩ := digits_iff.mp hds
      rw [List.append_assoc, List.cons_append]
      have hread := Literal.ofChars?_parts hs (unsigned_digits hne hwhole _) hwhole
        (endsDigits_point _) (takeFraction_point hfraction he.endsDigits) (fun h => hne h.1) hexponent
      refine ⟨_, hread, ?_⟩
      rw [value_digits]
  | @fraction ds _ hds hne =>
      obtain ⟨hfraction, rfl⟩ := digits_iff.mp hds
      have hwhole : ∀ c ∈ ([] : List Char), c.isDigit = true := List.forall_mem_nil _
      have hunsigned : Unsigned ([] ++ '.' :: (ds ++ e)) := by
        rintro c ⟨⟩
        decide
      have hread := Literal.ofChars?_parts hs hunsigned hwhole (endsDigits_point _)
        (takeFraction_point hfraction he.endsDigits) (fun h => hne h.2) hexponent
      refine ⟨_, hread, ?_⟩
      rw [value_digits]
      simp [ofDigits]

/-! ### Reading a number -/

theorem Written.nonneg {cs : List Char} {negative : Bool} {v : ℚ} (h : Written cs negative v) :
    0 ≤ v := by
  obtain ⟨d, -, rfl⟩ := h.ofChars?
  rw [Decimal.value]
  positivity

theorem Literal.value_eq (l : Literal) :
    l.value = ofPattern l.negative (nearestTo l.magnitude.value) := by
  rw [Literal.value, Decimal.pattern_eq]

theorem Written.ofToken? {t : String} {negative : Bool} {v : ℚ} (h : Written t.toList negative v) :
    Number.ofToken? t = some (ofPattern negative (nearestTo v)) := by
  obtain ⟨d, hd, rfl⟩ := h.ofChars?
  rw [Number.ofToken?, Literal.ofToken?, hd, Option.map_some, Literal.value_eq]

theorem written_of_ofToken? {t : String} {x : Float} (h : ofToken? t = some x) :
    ∃ negative v, Written t.toList negative v ∧ x = ofPattern negative (nearestTo v) := by
  obtain ⟨l, hl, rfl⟩ := Option.map_eq_some_iff.mp h
  exact ⟨_, _, Literal.written_of_ofChars? hl, l.value_eq⟩

/-- A token is a number if and only if it is written as one, and then it is the number that
what is written rounds to. -/
theorem literals_exact (t : String) :
    ((∃ x, ofToken? t = some x) ↔ ∃ negative v, Written t.toList negative v) ∧
      ∀ negative v, Written t.toList negative v →
        ∀ x, ofToken? t = some x ↔ RoundsTo negative v x := by
  refine ⟨⟨?_, ?_⟩, ?_⟩
  · rintro ⟨x, hx⟩
    obtain ⟨negative, v, hwritten, -⟩ := written_of_ofToken? hx
    exact ⟨negative, v, hwritten⟩
  · rintro ⟨negative, v, hwritten⟩
    exact ⟨_, hwritten.ofToken?⟩
  · intro negative v hwritten x
    rw [hwritten.ofToken?, Option.some_inj, roundsTo_iff hwritten.nonneg, eq_comm]

example : ["inf", "nan", "1_0", ".", "1e", "1e+", "+", "", " 1", "٣"].all
    (fun t => Literal.ofToken? t = none) = true := by
  decide

end FrameLisp.Number
