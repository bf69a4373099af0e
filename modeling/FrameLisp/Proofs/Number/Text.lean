/-
FrameLisp/Proofs/Number/Text.lean

The layout of a decimal reads back.

A decimal is written either with the point among its digits or with an exponent.  Read as
a literal, either layout gives a decimal of the same value (`readsAs_layout`).  It need
not be the same decimal: zeros may have been put at either end of the digits.

Nothing but digits, signs, points and the letters of exponents stands in a literal
(`Literal.isLiteralChar`).
-/
import FrameLisp.Number.Shortest
import FrameLisp.Proofs.Number.Digits
import FrameLisp.Proofs.Number.Rounding
import Mathlib.Data.List.TakeWhile

namespace FrameLisp.Number

/-! ### Parts of literals -/

theorem isDigit_zeros (k : ℕ) : ∀ c ∈ List.replicate k '0', c.isDigit = true := by
  intro c hc
  rw [List.eq_of_mem_replicate hc]
  rfl

/-- What follows a run of digits does not go on with one. -/
def EndsDigits (cs : List Char) : Prop := ∀ c ∈ cs.head?, c.isDigit = false

theorem takeWhile_digits {ds cs : List Char} (hds : ∀ c ∈ ds, c.isDigit = true)
    (hcs : EndsDigits cs) : (ds ++ cs).takeWhile Char.isDigit = ds := by
  rw [List.takeWhile_append_of_pos hds]
  cases cs with
  | nil => simp
  | cons c cs => simp [hcs c rfl]

theorem dropWhile_digits {ds cs : List Char} (hds : ∀ c ∈ ds, c.isDigit = true)
    (hcs : EndsDigits cs) : (ds ++ cs).dropWhile Char.isDigit = cs := by
  rw [List.dropWhile_append_of_pos hds]
  cases cs with
  | nil => simp
  | cons c cs => simp [hcs c rfl]

theorem takeFraction_point {ds cs : List Char} (hds : ∀ c ∈ ds, c.isDigit = true)
    (hcs : EndsDigits cs) : takeFraction ('.' :: (ds ++ cs)) = (ds, cs) := by
  rw [takeFraction, takeWhile_digits hds hcs, dropWhile_digits hds hcs]

/-- A sign or none, and whether it is a minus. -/
inductive OptionalSign : List Char → Bool → Prop
  | absent : OptionalSign [] false
  | plus : OptionalSign ['+'] false
  | minus : OptionalSign ['-'] true

/-- What follows a sign does not begin with another one. -/
def Unsigned (cs : List Char) : Prop := ∀ c ∈ cs.head?, c ≠ '+' ∧ c ≠ '-'

theorem unsigned_digits {ds : List Char} (hne : ds ≠ []) (hds : ∀ c ∈ ds, c.isDigit = true)
    (cs : List Char) : Unsigned (ds ++ cs) := by
  obtain ⟨d, ds, rfl⟩ := List.exists_cons_of_ne_nil hne
  have hd := hds d (List.mem_cons_self ..)
  rintro c ⟨⟩
  constructor <;> rintro rfl <;> exact absurd hd (by decide)

theorem takeSign_append {s cs : List Char} {negative : Bool} (hs : OptionalSign s negative)
    (hcs : Unsigned cs) : takeSign (s ++ cs) = (negative, cs) := by
  cases hs with
  | absent =>
      cases cs with
      | nil => rfl
      | cons c cs =>
          obtain ⟨hplus, hminus⟩ := hcs c rfl
          simp [takeSign, hplus, hminus]
  | plus => rfl
  | minus => rfl

/-- The sign of a literal, written for negative ones only. -/
def signText (negative : Bool) : List Char := if negative then ['-'] else []

theorem optionalSign_signText (negative : Bool) : OptionalSign (signText negative) negative := by
  cases negative with
  | false => exact .absent
  | true => exact .minus

theorem readExponent?_exponentText (e : ℤ) :
    readExponent? ('e' :: exponentText e) = some e := by
  -- the digits may have a zero in front, which does not count
  obtain ⟨ds, hds⟩ : ∃ ds, ds = if (toDigits e.natAbs).length < 2 then '0' :: toDigits e.natAbs
    else toDigits e.natAbs := ⟨_, rfl⟩
  have hne : ds ≠ [] := by
    rw [hds]
    split
    · exact List.cons_ne_nil _ _
    · exact toDigits_ne_nil _
  have hall : ds.all Char.isDigit = true := by
    rw [List.all_eq_true, hds]
    split
    · exact List.forall_mem_cons.mpr ⟨rfl, isDigit_toDigits _⟩
    · exact isDigit_toDigits _
  have hvalue : ofDigits ds = e.natAbs := by
    rw [hds]
    split
    · exact (ofDigits_zeros_append 1 _).trans (ofDigits_toDigits _)
    · exact ofDigits_toDigits _
  have hsign : takeSign (exponentText e) = (decide (e < 0), ds) := by
    simp only [exponentText, ← hds]
    split
    · next h => simp [takeSign, h]
    · next h => simp [takeSign, h]
  rw [readExponent?, if_pos (.inl rfl), hsign]
  simp only [hne, hall, hvalue, decide_eq_true_eq, ne_eq, not_false_eq_true, and_self, if_true]
  congr 1
  split <;> omega

/-- A sign or none, digits, a point with more digits or none, and an exponent or none. -/
theorem Literal.ofChars?_parts {s whole cs ds tail : List Char} {e : ℤ} {negative : Bool}
    (hs : OptionalSign s negative) (hunsigned : Unsigned (whole ++ cs))
    (hwhole : ∀ c ∈ whole, c.isDigit = true) (hcs : EndsDigits cs)
    (hfraction : takeFraction cs = (ds, tail)) (hne : ¬ (whole = [] ∧ ds = []))
    (hexponent : readExponent? tail = some e) :
    Literal.ofChars? (s ++ (whole ++ cs)) =
      some ⟨negative, ⟨ofDigits (whole ++ ds), e - (ds.length : ℤ)⟩⟩ := by
  rw [Literal.ofChars?, takeSign_append hs hunsigned]
  simp only [takeWhile_digits hwhole hcs, dropWhile_digits hwhole hcs, hfraction, hne, if_false,
    hexponent, Option.map_some]

/-- The same with a digit in front of the point. -/
theorem Literal.ofChars?_digits {whole cs ds tail : List Char} {e : ℤ} (negative : Bool)
    (hne : whole ≠ []) (hwhole : ∀ c ∈ whole, c.isDigit = true) (hcs : EndsDigits cs)
    (hfraction : takeFraction cs = (ds, tail)) (hexponent : readExponent? tail = some e) :
    Literal.ofChars? (signText negative ++ (whole ++ cs)) =
      some ⟨negative, ⟨ofDigits (whole ++ ds), e - (ds.length : ℤ)⟩⟩ :=
  Literal.ofChars?_parts (optionalSign_signText negative) (unsigned_digits hne hwhole cs) hwhole hcs
    hfraction (fun h => hne h.1) hexponent

/-! ### Layouts -/

/-- Reading a layout gives a decimal of the same value. -/
def ReadsAs (cs : List Char) (v : ℚ) : Prop :=
  ∀ negative, ∃ d : Decimal, Literal.ofChars? (signText negative ++ cs) = some ⟨negative, d⟩ ∧
    d.value = v

theorem endsDigits_point (cs : List Char) : EndsDigits ('.' :: cs) := by
  simp [EndsDigits]

theorem endsDigits_exponent (cs : List Char) : EndsDigits ('e' :: cs) := by
  simp [EndsDigits]

/-- Digits with a point among them. -/
theorem readsAs_point {whole ds : List Char} (hne : whole ≠ [])
    (hwhole : ∀ c ∈ whole, c.isDigit = true) (hds : ∀ c ∈ ds, c.isDigit = true) :
    ReadsAs (whole ++ '.' :: ds) (Decimal.value ⟨ofDigits (whole ++ ds), -(ds.length : ℤ)⟩) := by
  intro negative
  have hfraction : takeFraction ('.' :: ds) = (ds, []) := by
    simpa using takeFraction_point hds (show EndsDigits [] from nofun)
  refine ⟨_, Literal.ofChars?_digits negative hne hwhole (endsDigits_point ds) hfraction rfl, ?_⟩
  rw [zero_sub]

section Layout

variable {ds : List Char} (hds : ∀ c ∈ ds, c.isDigit = true)

include hds

theorem take_digits (hne : ds ≠ []) {w : ℕ} (hw : 0 < w) :
    ds.take w ≠ [] ∧ ∀ c ∈ ds.take w, c.isDigit = true := by
  refine ⟨?_, fun c hc => hds c (List.mem_of_mem_take hc)⟩
  rw [ne_eq, List.take_eq_nil_iff, not_or]
  exact ⟨hw.ne', hne⟩

theorem drop_digits (w : ℕ) : ∀ c ∈ ds.drop w, c.isDigit = true :=
  fun c hc => hds c (List.mem_of_mem_drop hc)

/-- Zeros between the point and the digits. -/
theorem readsAs_leadingZeros (k : ℕ) :
    ReadsAs ('0' :: '.' :: (List.replicate k '0' ++ ds))
      (Decimal.value ⟨ofDigits ds, -((k + ds.length : ℕ) : ℤ)⟩) := by
  have hdigits : ∀ c ∈ List.replicate k '0' ++ ds, c.isDigit = true :=
    List.forall_mem_append.mpr ⟨isDigit_zeros k, hds⟩
  have hread := readsAs_point (List.cons_ne_nil '0' []) (isDigit_zeros 1) hdigits
  have hvalue : ofDigits (['0'] ++ (List.replicate k '0' ++ ds)) = ofDigits ds :=
    (ofDigits_zeros_append 1 _).trans (ofDigits_zeros_append k ds)
  rwa [hvalue, List.length_append, List.length_replicate] at hread

/-- Zeros between the digits and the point, and one after it. -/
theorem readsAs_trailingZeros (hne : ds ≠ []) (k : ℕ) :
    ReadsAs (ds ++ List.replicate k '0' ++ ['.', '0']) (Decimal.value ⟨ofDigits ds, k⟩) := by
  have hdigits : ∀ c ∈ ds ++ List.replicate k '0', c.isDigit = true :=
    List.forall_mem_append.mpr ⟨hds, isDigit_zeros k⟩
  have hread := readsAs_point (List.append_ne_nil_of_left_ne_nil hne _) hdigits (isDigit_zeros 1)
  have hvalue : Decimal.value ⟨ofDigits (ds ++ List.replicate k '0' ++ List.replicate 1 '0'),
      -((List.replicate 1 '0').length : ℤ)⟩ = Decimal.value ⟨ofDigits ds, k⟩ := by
    rw [ofDigits_append, ofDigits_append, ofDigits_zeros, ofDigits_zeros]
    simp only [Decimal.value, List.length_replicate]
    push_cast
    rw [zpow_neg_one, zpow_natCast]
    ring
  rwa [hvalue] at hread

theorem readsAs_pointInside (hne : ds ≠ []) {w : ℕ} (hw : 0 < w) :
    ReadsAs (ds.take w ++ '.' :: ds.drop w)
      (Decimal.value ⟨ofDigits ds, -((ds.length - w : ℕ) : ℤ)⟩) := by
  obtain ⟨htake, hwhole⟩ := take_digits hds hne hw
  have hread := readsAs_point htake hwhole (drop_digits hds w)
  rwa [List.take_append_drop, List.length_drop] at hread

theorem readsAs_positional (hne : ds ≠ []) (q : ℤ) :
    ReadsAs (positional ds (q + ds.length - 1)) (Decimal.value ⟨ofDigits ds, q⟩) := by
  have hpos : 0 < ds.length := List.length_pos_iff.mpr hne
  unfold positional
  split
  · next hneg =>
      generalize hk : (-(q + ds.length - 1) - 1).toNat = k
      obtain rfl : q = -((k + ds.length : ℕ) : ℤ) := by omega
      exact readsAs_leadingZeros hds k
  · next hnonneg =>
      generalize hw : (q + ds.length - 1 + 1).toNat = w
      simp only
      split
      · next hle =>
          obtain rfl : q = ((w - ds.length : ℕ) : ℤ) := by omega
          exact readsAs_trailingZeros hds hne _
      · next hlt =>
          obtain rfl : q = -((ds.length - w : ℕ) : ℤ) := by omega
          exact readsAs_pointInside hds hne (by omega)

theorem readsAs_scientific (hne : ds ≠ []) (q : ℤ) :
    ReadsAs (scientific ds (q + ds.length - 1)) (Decimal.value ⟨ofDigits ds, q⟩) := by
  intro negative
  have hpos : 0 < ds.length := List.length_pos_iff.mpr hne
  obtain ⟨htake, hwhole⟩ := take_digits hds hne Nat.one_pos
  have hexponent := readExponent?_exponentText (q + ds.length - 1)
  rw [scientific, List.append_assoc]
  split
  · next hone =>
      -- a single digit is written without a point
      have hlit := Literal.ofChars?_digits negative htake hwhole (endsDigits_exponent _) rfl hexponent
      refine ⟨_, hlit, ?_⟩
      rw [List.append_nil, List.take_of_length_le hone]
      congr 2
      simp only [List.length_nil]
      omega
  · next hmany =>
      have hlit := Literal.ofChars?_digits negative htake hwhole (endsDigits_point _)
        (takeFraction_point (drop_digits hds 1) (endsDigits_exponent _)) hexponent
      refine ⟨_, hlit, ?_⟩
      rw [List.take_append_drop]
      congr 2
      rw [List.length_drop]
      omega

end Layout

theorem readsAs_layout (d : Decimal) : ReadsAs d.layout d.value := by
  have hne := toDigits_ne_nil d.coefficient
  have hds := isDigit_toDigits d.coefficient
  have hvalue : Decimal.value ⟨ofDigits (toDigits d.coefficient), d.exponent⟩ = d.value := by
    rw [ofDigits_toDigits]
  unfold Decimal.layout
  rw [← hvalue]
  simp only
  split
  · exact readsAs_positional hds hne d.exponent
  · exact readsAs_scientific hds hne d.exponent

/-! ### The characters of literals -/

/-- A character that literals are made of. -/
def IsLiteralChar (c : Char) : Prop := c.isDigit = true ∨ c ∈ ['+', '-', '.', 'e', 'E']

theorem mem_takeSign {cs : List Char} {c : Char} (hc : c ∈ cs) :
    c ∈ (takeSign cs).2 ∨ IsLiteralChar c := by
  unfold takeSign
  split
  · obtain rfl | hc := List.mem_cons.mp hc
    · exact .inr (.inr (by simp))
    · exact .inl hc
  · obtain rfl | hc := List.mem_cons.mp hc
    · exact .inr (.inr (by simp))
    · exact .inl hc
  · exact .inl hc

theorem mem_dropWhile_isDigit {cs : List Char} {c : Char} (hc : c ∈ cs) :
    c ∈ cs.dropWhile Char.isDigit ∨ IsLiteralChar c := by
  rw [← List.takeWhile_append_dropWhile (p := Char.isDigit) (l := cs), List.mem_append] at hc
  obtain hc | hc := hc
  · exact .inr (.inl (List.mem_takeWhile_imp hc))
  · exact .inl hc

theorem mem_takeFraction {cs : List Char} {c : Char} (hc : c ∈ cs) :
    c ∈ (takeFraction cs).2 ∨ IsLiteralChar c := by
  unfold takeFraction
  split
  · obtain rfl | hc := List.mem_cons.mp hc
    · exact .inr (.inr (by simp))
    · exact mem_dropWhile_isDigit hc
  · exact .inl hc

theorem isLiteralChar_of_readExponent? {cs : List Char} {e : ℤ} (h : readExponent? cs = some e) :
    ∀ c ∈ cs, IsLiteralChar c := by
  cases cs with
  | nil => exact nofun
  | cons d cs =>
      rw [readExponent?] at h
      split at h
      · next hd =>
          simp only at h
          split at h
          · next hdigits =>
              refine List.forall_mem_cons.mpr ⟨.inr ?_, fun c hc => ?_⟩
              · rcases hd with rfl | rfl <;> simp
              · obtain hc | hc := mem_takeSign hc
                · exact .inl (List.all_eq_true.mp hdigits.2 c hc)
                · exact hc
          · cases h
      · cases h

theorem Literal.isLiteralChar {cs : List Char} {l : Literal} (h : ofChars? cs = some l) :
    ∀ c ∈ cs, IsLiteralChar c := by
  simp only [ofChars?] at h
  split at h
  · cases h
  · obtain ⟨e, he, -⟩ := Option.map_eq_some_iff.mp h
    intro c hc
    -- what is in no part of the literal before the exponent is in the exponent
    obtain hc | hc := mem_takeSign hc
    · obtain hc | hc := mem_dropWhile_isDigit hc
      · obtain hc | hc := mem_takeFraction hc
        · exact isLiteralChar_of_readExponent? he c hc
        · exact hc
      · exact hc
    · exact hc

theorem isLiteralChar_of_ofToken? {t : String} {x : Float} (h : ofToken? t = some x) :
    ∀ c ∈ t.toList, IsLiteralChar c := by
  obtain ⟨l, hl, -⟩ := Option.map_eq_some_iff.mp h
  exact Literal.isLiteralChar hl

end FrameLisp.Number
