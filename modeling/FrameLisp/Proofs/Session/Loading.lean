/-
FrameLisp/Proofs/Session/Loading.lean

Loading a file is evaluating its text.

Between the bytes of a file and the text that is evaluated there are two steps: decoding, and
giving every end of a line the same spelling.  Decoding inverts encoding.  The second step does
change the text, but not its tokens: a carriage return and a line feed are both blank, two of
them in a row are no different from one, and no token reaches across them.  So

    load (encoding of t)  =  eval t

for every text `t` (`load_agrees_eval`).  Bytes that are not the encoding of any text are
refused before anything is evaluated.
-/
import FrameLisp.Proofs.Session.Requests
import FrameLisp.Proofs.Text.Utf8

namespace FrameLisp

open Token

/-! ### Ends of lines -/

/-- Characters in front see of the others only what scanning has made of them. -/
theorem scanned_append_congr {cs ds : List Char} (h : scanned cs = scanned ds) (w : List Char) :
    scanned (w ++ cs) = scanned (w ++ ds) := by
  unfold scanned at h ⊢
  rw [List.foldr_append, List.foldr_append, h]

/-- A blank is as good as another, and as good as several. -/
theorem scanned_blank_congr {c d : Char} (hc : Text.isBlank c = true) (hd : Text.isBlank d = true)
    {cs ds : List Char} (h : tokenizeChars cs = tokenizeChars ds) :
    scanned (c :: cs) = scanned (d :: ds) := by
  rw [scanned_blank hc, scanned_blank hd, h]

theorem scanned_unifyNewlinesFrom (done cs : List Char) :
    scanned (Text.unifyNewlinesFrom done cs) = scanned (done.reverse ++ cs) := by
  have hreturn : Text.isBlank '\r' = true := rfl
  have hfeed : Text.isBlank '\n' = true := rfl
  fun_induction Text.unifyNewlinesFrom done cs with
  | case1 done => rw [List.append_nil]
  | case2 done cs ih =>
      -- the line feed behind the carriage return is one more blank
      have htokens : tokenizeChars cs = tokenizeChars ('\n' :: cs) :=
        (tokenizeChars_blank hfeed cs).symm
      rw [ih, List.reverse_cons, List.append_assoc, List.singleton_append]
      exact scanned_append_congr (scanned_blank_congr hfeed hreturn htokens) _
  | case3 done c cs hne ih =>
      rw [ih, List.reverse_cons, List.append_assoc, List.singleton_append]
      by_cases hc : c = '\r'
      · rw [if_pos hc, hc]
        exact scanned_append_congr (scanned_blank_congr hfeed hreturn rfl) _
      · rw [if_neg hc]

/-- The spelling of line ends makes no difference to the tokens. -/
theorem tokenize_unifyNewlines (text : String) :
    tokenize (String.ofList (Text.unifyNewlines text.toList)) = tokenize text := by
  rw [tokenize, tokenize, String.toList_ofList, tokenizeChars_eq, tokenizeChars_eq,
    Text.unifyNewlines, scanned_unifyNewlinesFrom]
  rfl

/-! ### Files -/

/-- **Loading a file is evaluating its text.**  If the bytes are the encoding of a text, any text
whatever, then loading them replies what evaluating the text replies: the same value or stop,
the same text printed, the same session to go on with.  If they are not well-formed, then loading
fails to decode them; there is no reply, nothing was printed, and the session is as before. -/
theorem load_agrees_eval (s : Session) (bytes : List UInt8) :
    (∀ text : String, bytes.toByteArray = text.toUTF8 → s.load bytes = .ok (s.eval text)) ∧
    (¬bytes.toByteArray.IsValidUTF8 →
      (∃ e, s.load bytes = .error e) ∧ s.reply? (.load bytes) = none ∧
        s.after (.load bytes) = s) := by
  constructor
  · intro text hbytes
    have hsame : s.eval (String.ofList (Text.unifyNewlines text.toList)) = s.eval text :=
      Session.eval_congr (tokenize_unifyNewlines text)
    rw [Session.load, Text.ofBytes_toUTF8 hbytes, ← hsame]
    rfl
  · intro hinvalid
    obtain ⟨e, he⟩ := Text.exists_ofBytes_error hinvalid
    have hload : s.load bytes = .error e := by
      rw [Session.load, he]
      rfl
    have hreply : s.reply? (.load bytes) = none := by
      rw [Session.reply?, hload]
      rfl
    refine ⟨⟨e, hload⟩, hreply, ?_⟩
    rw [Session.after, hreply]

end FrameLisp
