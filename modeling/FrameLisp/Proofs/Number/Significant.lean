/-
FrameLisp/Proofs/Number/Significant.lean

No shorter text reads back.

The length of a literal is counted in significant digits: those of its mantissa, without
the zeros at either end.  What a literal denotes can be written with `n` significant digits
or fewer exactly if it is

    c * 10 ^ p    with    c < 10 ^ n,

so `HasDigits` says of a value what `significantDigits` says of a text.

The search for the shortest decimal goes through one grid after the other, and looks on
each at the two neighbours of the magnitude only.  This is enough because rounding is
monotone: if a point of the grid reads back, then so does every point between it and the
magnitude, one of the neighbours among them.  And it is enough to look on the grids that
start at the leading digit: a decimal with `n` digits that is too fine for the `n`th grid is
below the power of ten that the magnitude begins with, and then that power of ten is between
the two, reads back too, and lies on every grid.
-/
import FrameLisp.Proofs.Number.Literals

namespace FrameLisp.Number

/-! ### Values with few digits -/

/-- The value can be written with `n` digits and a power of ten. -/
def HasDigits (v : ℚ) (n : ℕ) : Prop := ∃ (c : ℕ) (p : ℤ), c < 10 ^ n ∧ v = c * (10 : ℚ) ^ p

theorem HasDigits.mono {v : ℚ} {m n : ℕ} (h : HasDigits v m) (hle : m ≤ n) : HasDigits v n := by
  obtain ⟨c, p, hc, rfl⟩ := h
  exact ⟨c, p, hc.trans_le (Nat.pow_le_pow_right (by norm_num) hle), rfl⟩

theorem hasDigits_of_le {c n : ℕ} (p : ℤ) (hc : c ≤ 10 ^ n) (hn : 0 < n) :
    HasDigits (c * (10 : ℚ) ^ p) n := by
  rcases hc.eq_or_lt with rfl | hlt
  · refine ⟨1, n + p, Nat.one_lt_pow hn.ne' (by norm_num), ?_⟩
    rw [zpow_add₀ (by norm_num), zpow_natCast]
    push_cast
    ring
  · exact ⟨c, p, hlt, rfl⟩

/-! ### The leading place from above -/

theorem lt_zpow_digitCount {num den t : ℕ} {k : ℤ} (hden : 0 < den) (ht : (t : ℚ) = 10 ^ k) :
    fraction (num, den) < (10 : ℚ) ^ ((digitCount (num * t / den) : ℤ) - k) := by
  have hdenQ : (0 : ℚ) < den := by exact_mod_cast hden
  have hlt : num * t < 10 ^ digitCount (num * t / den) * den :=
    (Nat.div_lt_iff_lt_mul hden).mp (lt_pow_digitCount _)
  rw [zpow_sub₀ (by norm_num), lt_div_iff₀ (by positivity), ← ht, zpow_natCast, fraction,
    div_mul_eq_mul_div, div_lt_iff₀ hdenQ]
  exact_mod_cast hlt

theorem lt_zpow_leadingPlace {num den : ℕ} (hden : 0 < den) :
    fraction (num, den) < (10 : ℚ) ^ leadingPlace num den := by
  unfold leadingPlace
  split
  · have hscale : ((1 : ℕ) : ℚ) = 10 ^ (0 : ℤ) := by simp
    have hlt := @lt_zpow_digitCount num den 1 0 hden hscale
    simpa using hlt
  · refine lt_zpow_digitCount hden ?_
    rw [show (400 : ℤ) = (400 : ℕ) from rfl]
    generalize 400 = k
    simp

/-! ### The search stops at the first grid with a hit -/

/-- A grid has a point with the pattern `b`. -/
def Hits (b : ℕ) (p : ℤ) : Prop := ∃ w, OnGrid w p ∧ nearestTo w = b

theorem nearestTo_eq_of_between {u v w : ℚ} {b : ℕ} (hu : 0 ≤ u) (huv : u ≤ v) (hvw : v ≤ w)
    (hub : nearestTo u = b) (hwb : nearestTo w = b) : nearestTo v = b :=
  le_antisymm (hwb ▸ nearestTo_mono (hu.trans huv) hvw) (hub ▸ nearestTo_mono hu huv)

/-- The neighbours of a number on a grid. -/
theorem floor_bounds {v : ℚ} (hv : 0 ≤ v) (p : ℤ) :
    ⌊v / 10 ^ p⌋₊ * (10 : ℚ) ^ p ≤ v ∧ v < ((⌊v / 10 ^ p⌋₊ + 1 : ℕ) : ℚ) * 10 ^ p := by
  have hunit : (0 : ℚ) < 10 ^ p := by positivity
  constructor
  · rw [← le_div_iff₀ hunit]
    exact Nat.floor_le (by positivity)
  · rw [← div_lt_iff₀ hunit]
    push_cast
    exact Nat.lt_floor_add_one _

/-- Below `10 ^ k` the whole multiples of `10 ^ (k - n)` are counted with `n` digits. -/
theorem floor_lt_pow {v : ℚ} {k : ℤ} (hk : v < 10 ^ k) (n : ℕ) :
    ⌊v / (10 : ℚ) ^ (k - n)⌋₊ < 10 ^ n := by
  rw [Nat.floor_lt' (by positivity), div_lt_iff₀ (by positivity)]
  push_cast
  rwa [← zpow_natCast, ← zpow_add₀ (by norm_num), add_sub_cancel]

theorem fraction_nonneg (r : ℕ × ℕ) : 0 ≤ fraction r := by
  unfold fraction
  positivity

theorem pattern_ne_of_neighbour?_eq_none {b num den : ℕ} {p : ℤ}
    (h : neighbour? b num den p = none) :
    Decimal.pattern ⟨(scale 10 num den p).1 / (scale 10 num den p).2, p⟩ ≠ b ∧
      Decimal.pattern ⟨(scale 10 num den p).1 / (scale 10 num den p).2 + 1, p⟩ ≠ b := by
  simp only [neighbour?] at h
  split at h
  · split at h <;> cases h
  · next hlow =>
      split at h
      · cases h
      · next hhigh => exact ⟨hlow, hhigh⟩

theorem coefficient_neighbour?_le {b num den : ℕ} {p : ℤ} {d : Decimal}
    (h : neighbour? b num den p = some d) :
    d.coefficient ≤ (scale 10 num den p).1 / (scale 10 num den p).2 + 1 ∧ d.exponent = p := by
  simp only [neighbour?] at h
  split at h
  · split at h
    · cases h
      refine ⟨?_, rfl⟩
      obtain hround | hround := roundDiv_cases (scale 10 num den p).1 (scale 10 num den p).2
      · exact hround.trans_le (Nat.le_succ _)
      · exact hround.le
    · cases h
      exact ⟨Nat.le_succ _, rfl⟩
  · split at h
    · cases h
      exact ⟨le_rfl, rfl⟩
    · cases h

section Search

variable {b num den : ℕ} (hb : nearestTo (fraction (num, den)) = b)

include hb

/-- One of the neighbours is between the magnitude and any point that reads back. -/
theorem Hits.neighbour?_ne_none {p : ℤ} (h : Hits b p) : neighbour? b num den p ≠ none := by
  obtain ⟨_, ⟨m, rfl⟩, hm⟩ := h
  have hv := fraction_nonneg (num, den)
  obtain ⟨hlow, hhigh⟩ := floor_bounds hv p
  intro hnone
  obtain ⟨hlowNe, hhighNe⟩ := pattern_ne_of_neighbour?_eq_none hnone
  rw [Decimal.pattern_eq, Decimal.value, div_scale] at hlowNe hhighNe
  generalize fraction (num, den) = v at hb hv hlow hhigh hlowNe hhighNe
  generalize ⌊v / 10 ^ p⌋₊ = s at hlow hhigh hlowNe hhighNe
  rcases Nat.lt_or_ge s m with hlt | hge
  · refine hhighNe (nearestTo_eq_of_between hv hhigh.le ?_ hb hm)
    gcongr
    exact hlt
  · refine hlowNe (nearestTo_eq_of_between (by positivity) ?_ hlow hm hb)
    gcongr

/-- What the search finds has no more digits than a grid with a hit allows. -/
theorem hasDigits_searchGrids {k : ℤ} (hk : fraction (num, den) < 10 ^ k) {n : ℕ}
    (hhit : Hits b (k - n)) {fuel j : ℕ} (hj : j < n) (hn : n ≤ j + fuel) :
    HasDigits (searchGrids b num den fuel (k - j)).value n := by
  induction fuel generalizing j with
  | zero => omega
  | succ fuel ih =>
      have hplace : k - j - 1 = k - (j + 1 : ℕ) := by
        push_cast
        ring
      rw [searchGrids, hplace]
      split
      · next d hd =>
          obtain ⟨hcoefficient, hexponent⟩ := coefficient_neighbour?_le hd
          rw [div_scale] at hcoefficient
          have hfloor := floor_lt_pow hk (j + 1)
          rw [Decimal.value, hexponent]
          exact (hasDigits_of_le _ (by omega) j.succ_pos).mono hj
      · next hnone =>
          have hne : n ≠ j + 1 := fun h => hhit.neighbour?_ne_none hb (h ▸ hnone)
          exact ih (by omega) (by omega)

end Search

/-! ### The shortest decimal -/

/-- A decimal with `n` digits is on the `n`th grid, or else the power of ten that `v` begins
with is between the two. -/
theorem HasDigits.hits {v w : ℚ} {n b : ℕ} {k : ℤ} (h : HasDigits w n) (hn : 0 < n)
    (hw : nearestTo w = b) (hv : nearestTo v = b) (hk : (10 : ℚ) ^ (k - 1) ≤ v) :
    Hits b (k - n) := by
  obtain ⟨c, q, hc, rfl⟩ := h
  by_cases hq : k - n ≤ q
  · exact ⟨_, OnGrid.mono ⟨c, rfl⟩ hq, hw⟩
  · have hgrid : OnGrid ((10 : ℚ) ^ (k - 1)) (k - 1) := ⟨1, by simp⟩
    refine ⟨_, hgrid.mono (by omega), nearestTo_eq_of_between (by positivity) ?_ hk hw hv⟩
    calc (c : ℚ) * 10 ^ q ≤ 10 ^ n * 10 ^ q := by
          gcongr
          exact_mod_cast hc.le
      _ = 10 ^ (n + q) := by rw [zpow_add₀ (by norm_num), zpow_natCast]
      _ ≤ 10 ^ (k - 1) := zpow_le_zpow_right₀ (by norm_num) (by omega)

/-- No decimal that reads back has fewer digits than the shortest one. -/
theorem hasDigits_shortest {b n : ℕ} {w : ℚ} (hb : b < infinityPattern) (h : HasDigits w n)
    (hw : nearestTo w = b) : HasDigits (shortest b).value n := by
  unfold shortest
  split
  · exact ⟨0, 0, by positivity, by simp [Decimal.value]⟩
  · next hne =>
      generalize hr : (Dyadic.ofPattern b).ratio = r
      obtain ⟨hden, hround, hlow, hgrid⟩ := Dyadic.ratio_ofPattern hne hb hr
      have hhigh := @lt_zpow_leadingPlace r.1 r.2 hden
      have hn : 0 < n := by
        rw [Nat.pos_iff_ne_zero]
        rintro rfl
        obtain ⟨c, p, hc, rfl⟩ := h
        apply hne
        rw [← hw, Nat.lt_one_iff.mp hc]
        simp [nearestTo]
      have hsearch : ∀ m : ℕ, 0 < m → m ≤ 767 → Hits b (leadingPlace r.1 r.2 - m) →
          HasDigits (searchGrids b r.1 r.2 767 (leadingPlace r.1 r.2)).value m := by
        intro m hm hle hhit
        simpa using hasDigits_searchGrids (j := 0) hround hhigh hhit hm (by omega)
      rw [value_normalize]
      rcases Nat.le_total n 767 with hle | hge
      · exact hsearch n hn hle (h.hits hn hw hround hlow)
      · -- the magnitude itself is on the last grid
        exact (hsearch 767 (by norm_num) le_rfl ⟨_, hgrid, hround⟩).mono hge

/-! ### Significant digits -/

/-- The digits of a literal before its exponent. -/
def mantissaDigits (cs : List Char) : List Char :=
  (cs.takeWhile fun c => c ≠ 'e' ∧ c ≠ 'E').filter Char.isDigit

/-- Digits without the zeros at either end. -/
def trimZeros (ds : List Char) : List Char :=
  (ds.dropWhile (· = '0')).rdropWhile (· = '0')

/-- How many significant digits a literal has. -/
def significantDigits (t : String) : ℕ := (trimZeros (mantissaDigits t.toList)).length

theorem trimZeros_spec (ds : List Char) :
    ∃ j k, ds = List.replicate j '0' ++ (trimZeros ds ++ List.replicate k '0') := by
  have hfront : ∀ c ∈ ds.takeWhile (· = '0'), c = '0' :=
    fun c hc => by simpa using List.mem_takeWhile_imp hc
  have hback : ∀ c ∈ (ds.dropWhile (· = '0')).rtakeWhile (· = '0'), c = '0' :=
    fun c hc => by simpa using List.mem_rtakeWhile_imp hc
  refine ⟨(ds.takeWhile (· = '0')).length,
    ((ds.dropWhile (· = '0')).rtakeWhile (· = '0')).length, ?_⟩
  rw [← List.eq_replicate_of_mem hfront, ← List.eq_replicate_of_mem hback, trimZeros,
    List.rdropWhile_append_rtakeWhile, List.takeWhile_append_dropWhile]

theorem head_trimZeros {ds cs : List Char} {c : Char} (h : trimZeros ds = c :: cs) : c ≠ '0' := by
  obtain ⟨rest, hrest⟩ : trimZeros ds <+: ds.dropWhile (· = '0') := List.rdropWhile_prefix _ _
  have hhead := List.head?_dropWhile_not (fun c => decide (c = '0')) ds
  rw [← hrest, h] at hhead
  simpa using hhead

theorem last_trimZeros {ds cs : List Char} {c : Char} (h : trimZeros ds = cs ++ [c]) : c ≠ '0' := by
  have hne : trimZeros ds ≠ [] := by simp [h]
  have hlast : ¬ decide ((trimZeros ds).getLast hne = '0') = true :=
    List.rdropWhile_last_not _ _ hne
  simpa [h] using hlast

/-- A number that does not end in zero is the least coefficient of its value. -/
theorem le_of_mul_zpow_eq {m c : ℕ} {q p : ℤ} (hm : m % 10 ≠ 0)
    (h : (m : ℚ) * 10 ^ q = c * 10 ^ p) : m ≤ c := by
  have hcancel : ∀ k : ℤ, (10 : ℚ) ^ k ≠ 0 := fun k => by positivity
  rcases le_or_gt p q with hle | hlt
  · obtain ⟨n, rfl⟩ := Int.le.dest hle
    have hc : (m : ℚ) * 10 ^ n = c := by
      rw [zpow_add₀ (by norm_num), zpow_natCast, mul_comm (10 ^ p), ← mul_assoc] at h
      exact mul_right_cancel₀ (hcancel p) h
    have hc : m * 10 ^ n = c := by exact_mod_cast hc
    rw [← hc]
    exact Nat.le_mul_of_pos_right m (by positivity)
  · obtain ⟨n, rfl⟩ := Int.le.dest (Int.add_one_le_iff.mpr hlt)
    have hc : (m : ℚ) = c * 10 ^ n * 10 := by
      rw [zpow_add₀ (by norm_num), zpow_add_one₀ (by norm_num), zpow_natCast] at h
      apply mul_right_cancel₀ (hcancel q)
      rw [h]
      ring
    have hc : m = c * 10 ^ n * 10 := by exact_mod_cast hc
    omega

/-- Digits with no zero at either end are as few as the value allows. -/
theorem hasDigits_trimZeros {ds : List Char} (hds : ∀ c ∈ trimZeros ds, c.isDigit = true) (q : ℤ)
    (n : ℕ) : HasDigits (ofDigits (trimZeros ds) * 10 ^ q) n ↔ (trimZeros ds).length ≤ n := by
  constructor
  · rintro ⟨c, p, hc, heq⟩
    rcases List.eq_nil_or_concat' (trimZeros ds) with hnil | ⟨init, last, hlast⟩
    · simp [hnil]
    · obtain ⟨first, rest, hfirst⟩ := List.exists_cons_of_ne_nil
        (show trimZeros ds ≠ [] by simp [hlast])
      -- it does not end in zero, so `c` is not less, and it has a digit for every place
      have hmod : ofDigits (trimZeros ds) % 10 ≠ 0 := by
        have hdigit : last.isDigit = true := hds last (by simp [hlast])
        have hpos := digitValue_pos hdigit (last_trimZeros hlast)
        have hlt := digitValue_lt hdigit
        rw [hlast, ofDigits_snoc]
        omega
      have hlow : 10 ^ rest.length ≤ ofDigits (trimZeros ds) := by
        have hpos := digitValue_pos (hds first (by simp [hfirst])) (head_trimZeros hfirst)
        rw [hfirst, ofDigits_cons]
        exact Nat.le_add_right_of_le (Nat.le_mul_of_pos_left _ hpos)
      have hlt := (hlow.trans (le_of_mul_zpow_eq hmod heq)).trans_lt hc
      rw [hfirst, List.length_cons]
      exact (Nat.pow_lt_pow_iff_right (by norm_num)).mp hlt
  · intro hle
    exact HasDigits.mono ⟨_, q, ofDigits_lt hds, rfl⟩ hle

/-! ### The digits of a literal -/

theorem Mantissa.mem {m : List Char} {v : ℚ} (h : Mantissa m v) :
    ∀ c ∈ m, c.isDigit = true ∨ c = '.' := by
  cases h with
  | whole hcs => exact fun c hc => .inl ((digits_iff.mp hcs).1 c hc)
  | point hcs _ hds =>
      intro c hc
      rcases List.mem_append.mp hc with hc | hc
      · exact .inl ((digits_iff.mp hcs).1 c hc)
      · exact (List.mem_cons.mp hc).elim .inr fun hc => .inl ((digits_iff.mp hds).1 c hc)
  | fraction hds =>
      exact fun c hc => (List.mem_cons.mp hc).elim .inr fun hc => .inl ((digits_iff.mp hds).1 c hc)

theorem mantissaDigits_append {s m e : List Char} {negative : Bool} {v : ℚ} {k : ℤ}
    (hs : OptionalSign s negative) (hm : Mantissa m v) (he : Exponent e k) :
    mantissaDigits (s ++ (m ++ e)) = m.filter Char.isDigit := by
  have hplain : ∀ c ∈ s ++ m, decide (c ≠ 'e' ∧ c ≠ 'E') = true := by
    intro c hc
    rcases List.mem_append.mp hc with hc | hc
    · cases hs <;> simp at hc <;> simp [hc]
    · rcases hm.mem c hc with hdigit | rfl
      · rw [decide_eq_true_eq]
        constructor <;> rintro rfl <;> exact absurd hdigit (by decide)
      · decide
  have hexponent : e.takeWhile (fun c => decide (c ≠ 'e' ∧ c ≠ 'E')) = [] := by
    rcases he.cases_head with rfl | ⟨c, cs, rfl, rfl | rfl⟩ <;> simp
  have hsign : s.filter Char.isDigit = [] := by
    cases hs <;> rfl
  rw [mantissaDigits, ← List.append_assoc, List.takeWhile_append_of_pos hplain, hexponent,
    List.append_nil, List.filter_append, hsign, List.nil_append]

theorem Mantissa.value_filter {m : List Char} {v : ℚ} (h : Mantissa m v) :
    ∃ q : ℤ, v = ofDigits (m.filter Char.isDigit) * 10 ^ q := by
  cases h with
  | whole hcs =>
      obtain ⟨hwhole, rfl⟩ := digits_iff.mp hcs
      rw [List.filter_eq_self.mpr hwhole]
      exact ⟨0, by simp⟩
  | @point cs ds _ _ hcs _ hds =>
      obtain ⟨hwhole, rfl⟩ := digits_iff.mp hcs
      obtain ⟨hfraction, rfl⟩ := digits_iff.mp hds
      have hvalue := value_digits cs ds 0
      have hfilter : (cs ++ '.' :: ds).filter Char.isDigit = cs ++ ds := by
        rw [List.filter_append, List.filter_cons_of_neg (by decide), List.filter_eq_self.mpr hwhole,
          List.filter_eq_self.mpr hfraction]
      rw [zpow_zero, mul_one] at hvalue
      rw [hfilter, ← hvalue]
      exact ⟨_, rfl⟩
  | @fraction ds _ hds =>
      obtain ⟨hfraction, rfl⟩ := digits_iff.mp hds
      rw [List.filter_cons_of_neg (by decide), List.filter_eq_self.mpr hfraction]
      exact ⟨-(ds.length : ℤ), by rw [zpow_neg, zpow_natCast, div_eq_mul_inv]⟩

/-- A literal has as many significant digits as its value needs. -/
theorem Written.hasDigits_iff {t : String} {negative : Bool} {v : ℚ}
    (h : Written t.toList negative v) (n : ℕ) : HasDigits v n ↔ significantDigits t ≤ n := by
  rw [significantDigits]
  generalize t.toList = cs at h
  obtain ⟨hs, hm, he⟩ := h
  rw [mantissaDigits_append hs hm he]
  obtain ⟨q, rfl⟩ := hm.value_filter
  generalize hds : List.filter Char.isDigit _ = ds
  obtain ⟨j, l, hzeros⟩ := trimZeros_spec ds
  have hdigits : ∀ c ∈ trimZeros ds, c.isDigit = true := by
    intro c hc
    have hmem : c ∈ ds := by
      rw [hzeros]
      simp [hc]
    rw [← hds] at hmem
    exact List.of_mem_filter hmem
  have hvalue : ofDigits ds = ofDigits (trimZeros ds) * 10 ^ l := by
    conv_lhs => rw [hzeros]
    rw [ofDigits_zeros_append, ofDigits_append, ofDigits_zeros, List.length_replicate, add_zero]
  have hshift : ∀ k : ℤ, (ofDigits ds : ℚ) * 10 ^ q * 10 ^ k =
      ofDigits (trimZeros ds) * 10 ^ (l + q + k) := by
    intro k
    rw [hvalue, zpow_add₀ (by norm_num), zpow_add₀ (by norm_num), zpow_natCast]
    push_cast
    ring
  rw [hshift]
  exact hasDigits_trimZeros hdigits _ n

example : ["1e22", "-0.00120", "100", "0.0", "2.5e-3"].map significantDigits = [1, 2, 1, 0, 2] := by
  decide

/-! ### The text of a number -/

section Text

variable {x : Float}

theorem written_text (hx : pattern x < infinityPattern) :
    Written (text x).toList (isNegative x) (shortest (pattern x)).value := by
  obtain ⟨d, hread, hvalue⟩ := readsAs_layout (shortest (pattern x)) (isNegative x)
  rw [toList_text hx, ← hvalue]
  exact Literal.written_of_ofChars? hread

theorem significantDigits_text_le (hx : pattern x < infinityPattern) {t : String}
    (ht : ofToken? t = some x) : significantDigits (text x) ≤ significantDigits t := by
  obtain ⟨negative, v, hwritten, rfl⟩ := written_of_ofToken? ht
  have hv := (pattern_ofPattern (nearestTo_le v) negative).symm
  rw [← (written_text hx).hasDigits_iff]
  exact hasDigits_shortest hx ((hwritten.hasDigits_iff _).mpr le_rfl) hv

/-- The names of what is not a finite number are not literals. -/
theorem ofToken?_text_of_le (hx : infinityPattern ≤ pattern x) : ofToken? (text x) = none := by
  have hnames : ∀ t ∈ ["-inf", "inf", "nan"], Literal.ofToken? t = none := by decide
  have hname : text x ∈ ["-inf", "inf", "nan"] := by
    by_cases hinfinite : pattern x = infinityPattern
    · have hdatum : datum x = .infinite (isNegative x) := by
        rw [datum, if_neg (not_lt.mpr hx), if_pos hinfinite]
      simp only [text, hdatum]
      cases isNegative x <;> simp
    · have hdatum : datum x = .nan := by
        rw [datum, if_neg (not_lt.mpr hx), if_neg hinfinite]
      simp [text, hdatum]
  rw [ofToken?, hnames _ hname, Option.map_none]

end Text

/-- The text of a finite number reads back as that number, with no more significant digits
than any other text that does; the text of any other number is not a literal. -/
theorem text_shortest (x : Float) :
    (x.isFinite = true → ofToken? (text x) = some x ∧
      ∀ t, ofToken? t = some x → significantDigits (text x) ≤ significantDigits t) ∧
    (x.isFinite = false → ofToken? (text x) = none) := by
  constructor
  · intro hfinite
    have hx := isFinite_iff.mp hfinite
    exact ⟨ofToken?_text hx, fun t ht => significantDigits_text_le hx ht⟩
  · intro hspecial
    rw [Bool.eq_false_iff, ne_eq, isFinite_iff, not_lt] at hspecial
    exact ofToken?_text_of_le hspecial

end FrameLisp.Number
