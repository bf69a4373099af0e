/-
FrameLisp/Proofs/Text/Utf8.lean

Decoding inverts encoding.

The decoder is driven by first bytes: one says how many bytes follow, which bits it
contributes, and in which range the next byte lies.  The encoder of the library goes the other
way, from the size of a code.  They meet in single sequences.  `Sequence` lists the well-formed
ones with the codes they spell; the decoder reads exactly these (`sequence_of_readContinuation`,
`Sequence.readContinuation`), and they are exactly the encodings of characters
(`Sequence.encodes`, `sequence_utf8EncodeChar`).

Decoding a whole text is a recursion over sequences, so

    decode bs = .ok cs   ↔   bs  is the encoding of  cs

(`decode_eq_ok_iff`): every encoding is accepted and gives its text back, and nothing else is
accepted.
-/
import FrameLisp.Text.Utf8

namespace FrameLisp.Text

/-! ### First bytes and continuation bytes -/

variable {b : UInt8} {lead : Lead} {low high n code : Nat} {bs left : List UInt8}
  {r : Nat × List UInt8}

theorem readContinuation_succ_ok_iff :
    readContinuation low high (n + 1) code bs = .ok r ↔
      ∃ b rest, bs = b :: rest ∧ (low ≤ b.toNat ∧ b.toNat ≤ high) ∧
        readContinuation 0x80 0xBF n (code * 64 + (b.toNat - 0x80)) rest = .ok r := by
  constructor
  · intro h
    cases bs with
    | nil => cases h
    | cons b rest =>
        by_cases hb : low ≤ b.toNat ∧ b.toNat ≤ high
        · refine ⟨b, rest, rfl, hb, ?_⟩
          rw [readContinuation, if_pos hb] at h
          rcases hrest : readContinuation 0x80 0xBF n (code * 64 + (b.toNat - 0x80)) rest with
            ⟨good, reason⟩ | r'
          · rw [hrest] at h
            cases h
          · rw [hrest] at h
            exact h
        · rw [readContinuation, if_neg hb] at h
          cases h
  · rintro ⟨b, rest, rfl, hb, hrest⟩
    rw [readContinuation, if_pos hb, hrest]

theorem readContinuation_zero_ok_iff {v : Nat} :
    readContinuation low high 0 code bs = .ok (v, left) ↔ v = code ∧ left = bs := by
  simp [readContinuation, eq_comm]

/-- The four kinds of first bytes. -/
theorem Lead.ofByte?_eq_some_iff :
    Lead.ofByte? b = some lead ↔
      (b.toNat < 0x80 ∧ lead = ⟨0, b.toNat, 0x80, 0xBF⟩) ∨
      (0xC2 ≤ b.toNat ∧ b.toNat < 0xE0 ∧ lead = ⟨1, b.toNat - 0xC0, 0x80, 0xBF⟩) ∨
      (0xE0 ≤ b.toNat ∧ b.toNat < 0xF0 ∧
        lead = ⟨2, b.toNat - 0xE0, if b.toNat = 0xE0 then 0xA0 else 0x80,
          if b.toNat = 0xED then 0x9F else 0xBF⟩) ∨
      (0xF0 ≤ b.toNat ∧ b.toNat < 0xF5 ∧
        lead = ⟨3, b.toNat - 0xF0, if b.toNat = 0xF0 then 0x90 else 0x80,
          if b.toNat = 0xF4 then 0x8F else 0xBF⟩) := by
  unfold Lead.ofByte?
  grind

/-! ### Sequences -/

/-- A byte that can follow in a sequence. -/
def IsTail (b : UInt8) : Prop := 0x80 ≤ b.toNat ∧ b.toNat ≤ 0xBF

/-- The well-formed sequences, with the codes that they spell.  The second byte is bound more
tightly behind some first bytes: a lower one would make the sequence longer than it need be,
and a higher one would spell a surrogate or a code above the last. -/
inductive Sequence : List UInt8 → Nat → Prop
  | one {a code} : a.toNat < 0x80 → code = a.toNat → Sequence [a] code
  | two {a b code} : 0xC2 ≤ a.toNat → a.toNat < 0xE0 → IsTail b →
      code = (a.toNat - 0xC0) * 64 + (b.toNat - 0x80) → Sequence [a, b] code
  | three {a b c code} : 0xE0 ≤ a.toNat → a.toNat < 0xF0 → IsTail b →
      (a.toNat = 0xE0 → 0xA0 ≤ b.toNat) → (a.toNat = 0xED → b.toNat ≤ 0x9F) → IsTail c →
      code = ((a.toNat - 0xE0) * 64 + (b.toNat - 0x80)) * 64 + (c.toNat - 0x80) →
      Sequence [a, b, c] code
  | four {a b c d code} : 0xF0 ≤ a.toNat → a.toNat < 0xF5 → IsTail b →
      (a.toNat = 0xF0 → 0x90 ≤ b.toNat) → (a.toNat = 0xF4 → b.toNat ≤ 0x8F) → IsTail c →
      IsTail d →
      code = (((a.toNat - 0xF0) * 64 + (b.toNat - 0x80)) * 64 + (c.toNat - 0x80)) * 64 +
        (d.toNat - 0x80) →
      Sequence [a, b, c, d] code

/-- What the decoder reads after a first byte is a sequence. -/
theorem sequence_of_readContinuation (hlead : Lead.ofByte? b = some lead)
    (hread : readContinuation lead.low lead.high lead.count lead.bits bs = .ok (code, left)) :
    ∃ tail, bs = tail ++ left ∧ Sequence (b :: tail) code := by
  rcases Lead.ofByte?_eq_some_iff.mp hlead with
    ⟨hb, rfl⟩ | ⟨hb, hb', rfl⟩ | ⟨hb, hb', rfl⟩ | ⟨hb, hb', rfl⟩
  · obtain ⟨hcode, rfl⟩ := readContinuation_zero_ok_iff.mp hread
    exact ⟨[], rfl, .one hb hcode⟩
  · obtain ⟨b₁, rest, rfl, h₁, hread⟩ := readContinuation_succ_ok_iff.mp hread
    obtain ⟨hcode, rfl⟩ := readContinuation_zero_ok_iff.mp hread
    exact ⟨[b₁], rfl, .two hb hb' h₁ hcode⟩
  · obtain ⟨b₁, rest, rfl, h₁, hread⟩ := readContinuation_succ_ok_iff.mp hread
    obtain ⟨b₂, rest, rfl, h₂, hread⟩ := readContinuation_succ_ok_iff.mp hread
    obtain ⟨hcode, rfl⟩ := readContinuation_zero_ok_iff.mp hread
    dsimp only at h₁
    refine ⟨[b₁, b₂], rfl, .three hb hb' ?_ ?_ ?_ h₂ hcode⟩
    · unfold IsTail
      grind
    · grind
    · grind
  · obtain ⟨b₁, rest, rfl, h₁, hread⟩ := readContinuation_succ_ok_iff.mp hread
    obtain ⟨b₂, rest, rfl, h₂, hread⟩ := readContinuation_succ_ok_iff.mp hread
    obtain ⟨b₃, rest, rfl, h₃, hread⟩ := readContinuation_succ_ok_iff.mp hread
    obtain ⟨hcode, rfl⟩ := readContinuation_zero_ok_iff.mp hread
    dsimp only at h₁
    refine ⟨[b₁, b₂, b₃], rfl, .four hb hb' ?_ ?_ ?_ h₂ h₃ hcode⟩
    · unfold IsTail
      grind
    · grind
    · grind

/-- A sequence is read by the decoder, whatever comes behind it. -/
theorem Sequence.readContinuation {sequence : List UInt8} (h : Sequence sequence code) :
    ∃ b tail lead, sequence = b :: tail ∧ Lead.ofByte? b = some lead ∧ ∀ left,
      readContinuation lead.low lead.high lead.count lead.bits (tail ++ left) =
        .ok (code, left) := by
  cases h with
  | @one a _ ha hcode =>
      refine ⟨a, [], _, rfl, Lead.ofByte?_eq_some_iff.mpr (.inl ⟨ha, rfl⟩), fun left => ?_⟩
      exact readContinuation_zero_ok_iff.mpr ⟨hcode, rfl⟩
  | @two a b _ ha ha' hb hcode =>
      refine ⟨a, [b], _, rfl, Lead.ofByte?_eq_some_iff.mpr (.inr (.inl ⟨ha, ha', rfl⟩)),
        fun left => ?_⟩
      refine readContinuation_succ_ok_iff.mpr ⟨b, left, rfl, hb, ?_⟩
      exact readContinuation_zero_ok_iff.mpr ⟨hcode, rfl⟩
  | @three a b c _ ha ha' hb hlow hhigh hc hcode =>
      refine ⟨a, [b, c], _, rfl,
        Lead.ofByte?_eq_some_iff.mpr (.inr (.inr (.inl ⟨ha, ha', rfl⟩))), fun left => ?_⟩
      refine readContinuation_succ_ok_iff.mpr ⟨b, c :: left, rfl, ?_, ?_⟩
      · unfold IsTail at hb
        grind
      · refine readContinuation_succ_ok_iff.mpr ⟨c, left, rfl, hc, ?_⟩
        exact readContinuation_zero_ok_iff.mpr ⟨hcode, rfl⟩
  | @four a b c d _ ha ha' hb hlow hhigh hc hd hcode =>
      refine ⟨a, [b, c, d], _, rfl,
        Lead.ofByte?_eq_some_iff.mpr (.inr (.inr (.inr ⟨ha, ha', rfl⟩))), fun left => ?_⟩
      refine readContinuation_succ_ok_iff.mpr ⟨b, c :: d :: left, rfl, ?_, ?_⟩
      · unfold IsTail at hb
        grind
      · refine readContinuation_succ_ok_iff.mpr ⟨c, d :: left, rfl, hc, ?_⟩
        refine readContinuation_succ_ok_iff.mpr ⟨d, left, rfl, hd, ?_⟩
        exact readContinuation_zero_ok_iff.mpr ⟨hcode, rfl⟩

/-! ### Sequences and characters -/

theorem eq_ofNat {k : Nat} (h : b.toNat = k) : b = UInt8.ofNat k := by
  rw [← h, UInt8.ofNat_toNat]

/-- The encoding of a character by the size of its code. -/
theorem utf8EncodeChar_ofNat {v : Nat} (hv : v.isValidChar) :
    String.utf8EncodeChar (Char.ofNat v) =
      if v ≤ 0x7F then [UInt8.ofNat v]
      else if v ≤ 0x7FF then [UInt8.ofNat (v / 64 % 32 + 192), UInt8.ofNat (v % 64 + 128)]
      else if v ≤ 0xFFFF then
        [UInt8.ofNat (v / 4096 % 16 + 224), UInt8.ofNat (v / 64 % 64 + 128),
          UInt8.ofNat (v % 64 + 128)]
      else
        [UInt8.ofNat (v / 262144 % 8 + 240), UInt8.ofNat (v / 4096 % 64 + 128),
          UInt8.ofNat (v / 64 % 64 + 128), UInt8.ofNat (v % 64 + 128)] := by
  have hval : (Char.ofNat v).val.toNat = v := by
    rw [Char.ofNat, dif_pos hv]
    rfl
  rw [String.utf8EncodeChar, hval]

/-- A sequence spells the code of a character, and is its encoding. -/
theorem Sequence.encodes {sequence : List UInt8} (h : Sequence sequence code) :
    code.isValidChar ∧ sequence = String.utf8EncodeChar (Char.ofNat code) := by
  cases h with
  | one ha hcode =>
      have hvalid : code.isValidChar := .inl (by omega)
      refine ⟨hvalid, ?_⟩
      rw [utf8EncodeChar_ofNat hvalid, if_pos (by omega), eq_ofNat hcode.symm]
  | two ha ha' hb hcode =>
      unfold IsTail at hb
      have hvalid : code.isValidChar := .inl (by omega)
      refine ⟨hvalid, ?_⟩
      rw [utf8EncodeChar_ofNat hvalid, if_neg (by omega), if_pos (by omega)]
      simp only [List.cons.injEq, and_true]
      exact ⟨eq_ofNat (by omega), eq_ofNat (by omega)⟩
  | three ha ha' hb hlow hhigh hc hcode =>
      unfold IsTail at hb hc
      have hvalid : code.isValidChar := by
        unfold Nat.isValidChar
        omega
      refine ⟨hvalid, ?_⟩
      rw [utf8EncodeChar_ofNat hvalid, if_neg (by omega), if_neg (by omega), if_pos (by omega)]
      simp only [List.cons.injEq, and_true]
      exact ⟨eq_ofNat (by omega), eq_ofNat (by omega), eq_ofNat (by omega)⟩
  | four ha ha' hb hlow hhigh hc hd hcode =>
      unfold IsTail at hb hc hd
      have hvalid : code.isValidChar := .inr (by omega)
      refine ⟨hvalid, ?_⟩
      rw [utf8EncodeChar_ofNat hvalid, if_neg (by omega), if_neg (by omega), if_neg (by omega)]
      simp only [List.cons.injEq, and_true]
      exact ⟨eq_ofNat (by omega), eq_ofNat (by omega), eq_ofNat (by omega), eq_ofNat (by omega)⟩

/-- The bound is a number here, as arithmetic wants it. -/
theorem toNat_ofNat {k : Nat} (hk : k < 256) : (UInt8.ofNat k).toNat = k :=
  UInt8.toNat_ofNat_of_lt' hk

/-- Six bits make a byte that can follow. -/
theorem isTail_ofNat {k : Nat} (hk : k < 64) : IsTail (UInt8.ofNat (k + 128)) := by
  have hb : (UInt8.ofNat (k + 128)).toNat = k + 128 := toNat_ofNat (by omega)
  unfold IsTail
  omega

/-- The encoding of a character is a sequence that spells its code. -/
theorem sequence_utf8EncodeChar (c : Char) : Sequence (String.utf8EncodeChar c) c.toNat := by
  have hvalid : c.toNat.isValidChar := c.valid
  have hencode := utf8EncodeChar_ofNat hvalid
  rw [Char.ofNat_toNat] at hencode
  rw [hencode]
  generalize c.toNat = v at hvalid
  unfold Nat.isValidChar at hvalid
  have hlast : (UInt8.ofNat (v % 64 + 128)).toNat = v % 64 + 128 := toNat_ofNat (by omega)
  by_cases h₁ : v ≤ 0x7F
  · have ha : (UInt8.ofNat v).toNat = v := toNat_ofNat (by omega)
    rw [if_pos h₁]
    exact .one (by omega) ha.symm
  rw [if_neg h₁]
  by_cases h₂ : v ≤ 0x7FF
  · have ha : (UInt8.ofNat (v / 64 % 32 + 192)).toNat = v / 64 % 32 + 192 := toNat_ofNat (by omega)
    rw [if_pos h₂]
    exact .two (by omega) (by omega) (isTail_ofNat (by omega)) (by omega)
  rw [if_neg h₂]
  have hnext : (UInt8.ofNat (v / 64 % 64 + 128)).toNat = v / 64 % 64 + 128 :=
    toNat_ofNat (by omega)
  by_cases h₃ : v ≤ 0xFFFF
  · have ha : (UInt8.ofNat (v / 4096 % 16 + 224)).toNat = v / 4096 % 16 + 224 :=
      toNat_ofNat (by omega)
    rw [if_pos h₃]
    exact .three (by omega) (by omega) (isTail_ofNat (by omega)) (by omega) (by omega)
      (isTail_ofNat (by omega)) (by omega)
  · have ha : (UInt8.ofNat (v / 262144 % 8 + 240)).toNat = v / 262144 % 8 + 240 :=
      toNat_ofNat (by omega)
    have hb : (UInt8.ofNat (v / 4096 % 64 + 128)).toNat = v / 4096 % 64 + 128 :=
      toNat_ofNat (by omega)
    rw [if_neg h₃]
    exact .four (by omega) (by omega) (isTail_ofNat (by omega)) (by omega) (by omega)
      (isTail_ofNat (by omega)) (isTail_ofNat (by omega)) (by omega)

/-! ### Whole texts -/

variable {start : Nat} {done cs : List Char}

theorem decodeFrom_ok (hlead : Lead.ofByte? b = some lead)
    (hread : readContinuation lead.low lead.high lead.count lead.bits bs = .ok (code, left)) :
    decodeFrom start done (b :: bs) =
      decodeFrom (start + lead.count + 1) (Char.ofNat code :: done) left := by
  rw [decodeFrom, hlead]
  simp only
  split
  · next heq =>
      rw [hread] at heq
      cases heq
  · next heq =>
      rw [hread] at heq
      cases heq
      rfl

theorem decodeFrom_encode (cs : List Char) :
    decodeFrom start done (cs.flatMap String.utf8EncodeChar) = .ok (done.reverse ++ cs) := by
  induction cs generalizing start done with
  | nil => simp [decodeFrom]
  | cons c cs ih =>
      obtain ⟨b, tail, lead, hsequence, hlead, hread⟩ := (sequence_utf8EncodeChar c).readContinuation
      rw [List.flatMap_cons, hsequence, List.cons_append, decodeFrom_ok hlead (hread _), ih,
        Char.ofNat_toNat]
      simp

theorem encode_of_decodeFrom (h : decodeFrom start done bs = .ok cs) :
    ∃ ds, cs = done.reverse ++ ds ∧ bs = ds.flatMap String.utf8EncodeChar := by
  fun_induction decodeFrom start done bs with
  | case1 start done =>
      cases h
      exact ⟨[], by simp, rfl⟩
  | case2 start done b rest hlead => cases h
  | case3 start done b rest lead hlead good reason hread => cases h
  | case4 start done b rest lead hlead code left hread ih =>
      obtain ⟨ds, rfl, hleft⟩ := ih h
      obtain ⟨tail, rfl, hsequence⟩ := sequence_of_readContinuation hlead hread
      refine ⟨Char.ofNat code :: ds, by simp, ?_⟩
      rw [List.flatMap_cons, ← hsequence.encodes.2, hleft, List.cons_append]

/-- **Decoding accepts exactly the encodings, and gives their texts back.** -/
theorem decode_eq_ok_iff : decode bs = .ok cs ↔ bs = cs.flatMap String.utf8EncodeChar := by
  constructor
  · intro h
    obtain ⟨ds, rfl, hbs⟩ := encode_of_decodeFrom h
    exact hbs
  · rintro rfl
    exact decodeFrom_encode cs

/-! ### Source files -/

theorem decode_eq_ok_iff_toUTF8 :
    decode bs = .ok cs ↔ bs.toByteArray = (String.ofList cs).toUTF8 := by
  rw [decode_eq_ok_iff, String.toUTF8_eq_toByteArray, String.toByteArray_ofList, List.utf8Encode,
    List.toByteArray_inj]

/-- The text of a source file, with one spelling for the ends of lines. -/
theorem ofBytes_toUTF8 {text : String} (h : bs.toByteArray = text.toUTF8) :
    ofBytes bs = .ok (String.ofList (unifyNewlines text.toList)) := by
  have hdecode : decode bs = .ok text.toList := by
    rw [decode_eq_ok_iff_toUTF8, String.ofList_toList]
    exact h
  rw [ofBytes, hdecode]

/-- Bytes that encode no text are refused. -/
theorem exists_ofBytes_error (h : ¬bs.toByteArray.IsValidUTF8) : ∃ e, ofBytes bs = .error e := by
  rcases hdecode : decode bs with e | cs
  · exact ⟨e, by rw [ofBytes, hdecode]⟩
  · rw [decode_eq_ok_iff_toUTF8] at hdecode
    rw [hdecode] at h
    exact absurd (String.ofList cs).isValidUTF8 h

end FrameLisp.Text
