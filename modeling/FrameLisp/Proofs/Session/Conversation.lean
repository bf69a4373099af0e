/-
FrameLisp/Proofs/Session/Conversation.lean

A conversation with the shell is a session, as far as it gets.

The shell takes in lines, up to the line that ends it or the end of the input.  Of these
lines the ones that are not blank are evaluated one after the other, each in the session
that the one before it left, until one of them exits (`Session.evalAll`).  What a
conversation leaves, shows and ends with can be read off from the replies to them:

    replies              =  s.evalAll (programLines (linesBeforeEnd lines))
    converse s lines     ~  session of the last reply, page of the replies, how the last one ends

(`converse_eq_session`).  So neither a fault nor a run that nests too deep ends a
conversation or takes back what was done before, and behind a line that exits there is
nothing.  There is one exception.  The shell guards evaluation and does not guard writing
out the value, so it breaks off at the first value that nests too deep for that, and the
replies behind it are not `reached`.

`step_blank`, `step_end` and `step_program` say what one line does, `converseFrom_eq` what
all of them do.
-/
import FrameLisp.Proofs.Session.Buffers
import FrameLisp.Shell

namespace FrameLisp

/-! ### How replies end the shell -/

namespace Reply

/-- The status of a reply that exits. -/
def exit? (reply : Reply) : Option Int :=
  match reply.outcome with
  | .error (.exit status) => some status
  | _ => none

/-- The value of the reply nests too deep to be written out. -/
def Unshowable (reply : Reply) : Prop :=
  ∃ value, reply.outcome = .ok value ∧ value.fits reply.session.limit = false

/-- How the shell ends at a reply, if it does. -/
def ending? (reply : Reply) : Option Shell.Ending :=
  match reply.outcome with
  | .ok value => if value.fits reply.session.limit then none else some .brokenOff
  | .error (.exit status) => some (.exited status)
  | .error _ => none

/-- A reply exits, or has a value that cannot be shown, or lets the shell go on. -/
theorem ending?_cases (reply : Reply) :
    (∃ status, reply.exit? = some status ∧ reply.ending? = some (.exited status) ∧
      ¬reply.Unshowable) ∨
    (reply.exit? = none ∧ reply.ending? = some .brokenOff ∧ reply.Unshowable) ∨
    (reply.exit? = none ∧ reply.ending? = none ∧ ¬reply.Unshowable) := by
  rcases hout : reply.outcome with (cause | status | _) | value
  · exact .inr (.inr (by simp [exit?, ending?, Unshowable, hout]))
  · exact .inl ⟨status, by simp [exit?, ending?, Unshowable, hout]⟩
  · exact .inr (.inr (by simp [exit?, ending?, Unshowable, hout]))
  · cases hfits : value.fits reply.session.limit with
    | false => exact .inr (.inl (by simp [exit?, ending?, Unshowable, hout, hfits]))
    | true => exact .inr (.inr (by simp [exit?, ending?, Unshowable, hout, hfits]))

theorem exit?_eq_none {reply : Reply} (h : reply.ending? = none) : reply.exit? = none := by
  rcases reply.ending?_cases with ⟨status, -, hending, -⟩ | ⟨hexit, -, -⟩ | ⟨hexit, -, -⟩
  · rw [h] at hending
    cases hending
  · exact hexit
  · exact hexit

end Reply

/-! ### Buffers until one exits -/

namespace Session

/-- The replies to buffers, each of them evaluated in the session that the one before it
left.  Behind a buffer that exits none is evaluated. -/
def evalAll (s : Session) : List String → List Reply
  | [] => []
  | source :: rest =>
      let reply := s.eval source
      reply :: if reply.exit?.isSome then [] else reply.session.evalAll rest

/-- The session that replies leave. -/
def afterReplies (s : Session) (replies : List Reply) : Session :=
  replies.foldl (fun _ reply => reply.session) s

variable {s : Session} {source : String} {rest : List String}

theorem evalAll_cons_exit {status : Int} (h : (s.eval source).exit? = some status) :
    s.evalAll (source :: rest) = [s.eval source] := by
  simp [evalAll, h]

theorem evalAll_cons_none (h : (s.eval source).exit? = none) :
    s.evalAll (source :: rest) = s.eval source :: (s.eval source).session.evalAll rest := by
  simp [evalAll, h]

/-- Every buffer has a reply, unless one exits. -/
theorem length_evalAll (sources : List String) (s : Session)
    (h : (s.evalAll sources).findSome? Reply.exit? = none) :
    (s.evalAll sources).length = sources.length := by
  induction sources generalizing s with
  | nil => rfl
  | cons source rest ih =>
      cases hexit : (s.eval source).exit? with
      | some status => simp [evalAll_cons_exit hexit, hexit] at h
      | none =>
          rw [evalAll_cons_none hexit, List.findSome?_cons_of_isNone (by simp [hexit])] at h
          rw [evalAll_cons_none hexit, List.length_cons, List.length_cons, ih _ h]

/-- Blanks around a buffer do not count. -/
theorem eval_trim (s : Session) (source : String) : s.eval (Text.trim source) = s.eval source :=
  eval_congr (tokenize_trim source)

end Session

namespace Shell

/-! ### What is reached -/

/-- Replies up to the first at which the shell ends. -/
def reached : List Reply → List Reply
  | [] => []
  | reply :: later => reply :: if reply.ending?.isSome then [] else reached later

/-- How the shell ends after replies. -/
def endingAfter (replies : List Reply) : Ending :=
  (replies.findSome? Reply.ending?).getD .finished

section Reached

variable {s : Session} {source : String} {rest : List String}

theorem reached_evalAll_ended {ending : Ending} (h : (s.eval source).ending? = some ending) :
    reached (s.evalAll (source :: rest)) = [s.eval source] := by
  simp [Session.evalAll, reached, h]

theorem reached_evalAll_goOn (hexit : (s.eval source).exit? = none)
    (h : (s.eval source).ending? = none) :
    reached (s.evalAll (source :: rest)) =
      s.eval source :: reached ((s.eval source).session.evalAll rest) := by
  simp [Session.evalAll_cons_none hexit, reached, h]

theorem endingAfter_cons_ended {reply : Reply} {ending : Ending} (h : reply.ending? = some ending)
    (later : List Reply) : endingAfter (reply :: later) = ending := by
  simp [endingAfter, h]

theorem endingAfter_cons_goOn {reply : Reply} (h : reply.ending? = none) (later : List Reply) :
    endingAfter (reply :: later) = endingAfter later := by
  simp [endingAfter, h]

/-- The shell breaks off if one of the replies of a session has a value that cannot be shown,
and otherwise reaches all of them. -/
theorem reached_evalAll (sources : List String) (s : Session) :
    (endingAfter (reached (s.evalAll sources)) = .brokenOff ∧
      ∃ reply ∈ s.evalAll sources, reply.Unshowable) ∨
    (endingAfter (reached (s.evalAll sources)) ≠ .brokenOff ∧
      (∀ reply ∈ s.evalAll sources, ¬reply.Unshowable) ∧
      reached (s.evalAll sources) = s.evalAll sources) := by
  induction sources generalizing s with
  | nil => exact .inr ⟨nofun, nofun, rfl⟩
  | cons source rest ih =>
      rcases (s.eval source).ending?_cases with
        ⟨status, hexit, hending, hshow⟩ | ⟨-, hending, hshow⟩ | ⟨hexit, hending, hshow⟩
      · -- no reply follows one that exits
        rw [reached_evalAll_ended hending, Session.evalAll_cons_exit hexit,
          endingAfter_cons_ended hending]
        exact .inr ⟨nofun, List.forall_mem_singleton.mpr hshow, rfl⟩
      · rw [reached_evalAll_ended hending, endingAfter_cons_ended hending]
        exact .inl ⟨rfl, _, List.mem_cons_self, hshow⟩
      · rw [reached_evalAll_goOn hexit hending, Session.evalAll_cons_none hexit,
          endingAfter_cons_goOn hending]
        rcases ih (s.eval source).session with ⟨hbroken, reply, hmem, hreply⟩ | ⟨hne, hall, heq⟩
        · exact .inl ⟨hbroken, reply, List.mem_cons_of_mem _ hmem, hreply⟩
        · exact .inr ⟨hne, List.forall_mem_cons.mpr ⟨hshow, hall⟩, congrArg _ heq⟩

/-- The shell exits with the status of the one reply it reaches that exits. -/
theorem endingAfter_reached_exited (replies : List Reply) (status : Int) :
    endingAfter (reached replies) = .exited status ↔
      (reached replies).findSome? Reply.exit? = some status := by
  induction replies with
  | nil => exact iff_of_false nofun nofun
  | cons reply later ih =>
      rcases reply.ending?_cases with
        ⟨status', hexit, hending, -⟩ | ⟨hexit, hending, -⟩ | ⟨hexit, hending, -⟩
      all_goals simp [reached, endingAfter, hexit, hending]
      exact ih

end Reached

/-! ### What is shown -/

/-- What follows a line: its value, or a report of what went wrong. -/
def answer (coloured : Bool) (reply : Reply) : String :=
  match reply.outcome with
  | .ok value => ((value.render? reply.session.limit).map (· ++ "\n")).getD ""
  | .error (.fault cause) => reportFault coloured cause ++ "\n"
  | .error .tooDeep => reportTooDeep coloured ++ "\n"
  | .error (.exit _) => ""

/-- The lines up to the one that ends the shell. -/
def linesBeforeEnd (lines : List String) : List String :=
  lines.takeWhile fun line => Text.trim line ≠ endLine

/-- The lines that are not blank. -/
def programLines (lines : List String) : List String :=
  lines.filter fun line => Text.trim line ≠ ""

/-- What is shown for lines, given the replies to those that are not blank: each line is
invited, and a line that is not blank is followed by what it prints and by one answer.  A
line at which the shell ends is the last one. -/
def page (coloured : Bool) : List String → List Reply → String
  | [], _ => prompt ++ "\n"
  | line :: rest, replies =>
      if Text.trim line = "" then prompt ++ page coloured rest replies
      else match replies with
        | [] => ""
        | reply :: later =>
            prompt ++ reply.printed ++ answer coloured reply ++
              if reply.ending?.isSome then "" else page coloured rest later

/-! ### One line -/

variable (coloured : Bool) (s : Session) {line : String}

theorem step_blank (h : Text.trim line = "") :
    step coloured s line = { session := s, shown := "", ending := none } := by
  rw [step, if_pos h]

theorem step_end (h : Text.trim line = endLine) :
    step coloured s line = { session := s, shown := "\n", ending := some .finished } := by
  have hne : Text.trim line ≠ "" := by
    rw [h]
    decide
  rw [step, if_neg hne, if_pos h]

/-- Any other line is evaluated, and how the shell goes on depends on the reply. -/
theorem step_program (hblank : Text.trim line ≠ "") (hend : Text.trim line ≠ endLine) :
    step coloured s line =
      { session := (s.eval line).session
        shown := (s.eval line).printed ++ answer coloured (s.eval line)
        ending := (s.eval line).ending?
        trace := (s.eval line).trace } := by
  rw [step, if_neg hblank, if_neg hend, s.eval_trim]
  generalize s.eval line = reply
  rcases hout : reply.outcome with (cause | status | _) | value
  · simp [answer, Reply.ending?, hout]
  · simp [answer, Reply.ending?, hout]
  · simp [answer, Reply.ending?, hout]
  · cases hfits : value.fits reply.session.limit <;>
      simp [answer, Reply.ending?, Expr.render?, hout, hfits]

/-! ### All lines -/

section Lines

variable {coloured s}
variable {shown : String} {trace : List TraceEntry} {rest : List String}

theorem converseFrom_goOn (h : (step coloured s line).ending = none) :
    converseFrom coloured s shown trace (line :: rest) =
      converseFrom coloured (step coloured s line).session
        (shown ++ prompt ++ (step coloured s line).shown)
        (trace ++ (step coloured s line).trace) rest := by
  rw [converseFrom, h]

theorem converseFrom_ended {ending : Ending} (h : (step coloured s line).ending = some ending) :
    converseFrom coloured s shown trace (line :: rest) =
      { session := (step coloured s line).session
        shown := shown ++ prompt ++ (step coloured s line).shown
        ending := ending
        trace := trace ++ (step coloured s line).trace } := by
  rw [converseFrom, h]

theorem linesBeforeEnd_cons_end (h : Text.trim line = endLine) :
    linesBeforeEnd (line :: rest) = [] := by
  simp [linesBeforeEnd, h]

theorem linesBeforeEnd_cons (h : Text.trim line ≠ endLine) :
    linesBeforeEnd (line :: rest) = line :: linesBeforeEnd rest := by
  simp [linesBeforeEnd, h]

theorem programLines_cons_blank (h : Text.trim line = "") :
    programLines (line :: rest) = programLines rest := by
  simp [programLines, h]

theorem programLines_cons (h : Text.trim line ≠ "") :
    programLines (line :: rest) = line :: programLines rest := by
  simp [programLines, h]

theorem page_cons_blank (h : Text.trim line = "") (replies : List Reply) :
    page coloured (line :: rest) replies = prompt ++ page coloured rest replies := by
  cases replies <;> simp [page, h]

theorem page_cons (h : Text.trim line ≠ "") (reply : Reply) (later : List Reply) :
    page coloured (line :: rest) (reply :: later) =
      prompt ++ reply.printed ++ answer coloured reply ++
        if reply.ending?.isSome then "" else page coloured rest later := by
  rw [page, if_neg h]

end Lines

/-- What a conversation comes to when no line is left, at the end of the input or at the line
that ends the shell. -/
theorem finished_eq (shown : String) (trace : List TraceEntry) :
    ({ session := s, shown := shown ++ prompt ++ "\n", ending := .finished, trace := trace } :
        Transcript) =
      { session := s.afterReplies (reached (s.evalAll (programLines [])))
        shown := shown ++ page coloured [] (reached (s.evalAll (programLines [])))
        ending := endingAfter (reached (s.evalAll (programLines [])))
        trace := trace ++ (reached (s.evalAll (programLines []))).flatMap Reply.trace } := by
  simp [programLines, page, Session.evalAll, reached, endingAfter, Session.afterReplies,
    String.append_assoc]

/-- What a conversation comes to, by the replies to its lines. -/
theorem converseFrom_eq (shown : String) (trace : List TraceEntry)
    (lines : List String) :
    let before := linesBeforeEnd lines
    let replies := reached (s.evalAll (programLines before))
    converseFrom coloured s shown trace lines =
      { session := s.afterReplies replies
        shown := shown ++ page coloured before replies
        ending := endingAfter replies
        trace := trace ++ replies.flatMap Reply.trace } := by
  dsimp only
  induction lines generalizing s shown trace with
  | nil =>
      -- the end of the input acts like the line that ends the shell
      rw [converseFrom, step_end coloured s (by decide)]
      exact finished_eq coloured s shown trace
  | cons line rest ih =>
      by_cases hend : Text.trim line = endLine
      · have hstep := step_end coloured s hend
        rw [converseFrom_ended (by rw [hstep]), hstep, linesBeforeEnd_cons_end hend,
          List.append_nil]
        exact finished_eq coloured s shown trace
      · rw [linesBeforeEnd_cons hend]
        by_cases hblank : Text.trim line = ""
        · have hstep := step_blank coloured s hblank
          rw [converseFrom_goOn (by rw [hstep]), hstep, ih, programLines_cons_blank hblank,
            page_cons_blank hblank]
          simp [String.append_assoc]
        · have hstep := step_program coloured s hblank hend
          rw [programLines_cons hblank]
          cases hending : (s.eval line).ending? with
          | some ending =>
              rw [converseFrom_ended (by rw [hstep, hending]), hstep,
                reached_evalAll_ended hending, page_cons hblank, endingAfter_cons_ended hending]
              simp [hending, Session.afterReplies, String.append_assoc]
          | none =>
              rw [converseFrom_goOn (by rw [hstep, hending]), hstep, ih,
                reached_evalAll_goOn (Reply.exit?_eq_none hending) hending, page_cons hblank,
                endingAfter_cons_goOn hending]
              simp [hending, Session.afterReplies, String.append_assoc]

/-- Behind a line at which the shell exits or breaks off there is nothing. -/
theorem converseFrom_append (shown : String) (trace : List TraceEntry)
    (lines more : List String)
    (h : (converseFrom coloured s shown trace lines).ending ≠ .finished) :
    converseFrom coloured s shown trace (lines ++ more) =
      converseFrom coloured s shown trace lines := by
  induction lines generalizing s shown trace with
  | nil => exact absurd rfl h
  | cons line rest ih =>
      rw [List.cons_append]
      cases hending : (step coloured s line).ending with
      | none =>
          rw [converseFrom_goOn hending] at h
          rw [converseFrom_goOn hending, converseFrom_goOn hending, ih _ _ _ h]
      | some ending => rw [converseFrom_ended hending, converseFrom_ended hending]

/-- **A conversation is a session, as far as it gets.**  Let `program` be the lines that are
not blank, up to the line that ends the shell or the end of the input, let `replies` be what
evaluating them gives, one after the other and each in the session that the one before it
left, and let `heard` be the replies up to the first that exits or cannot be shown.

The conversation leaves the session that the replies heard leave, and shows the greeting and
their page, where each line of the program is followed by what it prints and by one rendering
of its value or one report.  It breaks off if and only if there is a reply whose value nests
too deep to be shown, and if it does not, then all replies are heard.  It exits if and only if
one of the replies heard does.  If it does neither, then every line of the program has its
reply, so that no fault and no run that nests too deep has ended it.  Whatever comes behind a
line at which it exits or breaks off changes nothing.  And a line without the blanks around it
means the same, in every session. -/
theorem converse_eq_session (coloured : Bool) (s : Session) (lines : List String) :
    let before := linesBeforeEnd lines
    let program := programLines before
    let replies := s.evalAll program
    let heard := reached replies
    let whole := converse coloured s lines
    whole.session = s.afterReplies heard ∧
    whole.shown = intro ++ "\n" ++ page coloured before heard ∧
    whole.trace = heard.flatMap Reply.trace ∧
    (whole.ending = .brokenOff ↔ ∃ reply ∈ replies, reply.Unshowable) ∧
    (whole.ending ≠ .brokenOff → heard = replies) ∧
    (∀ status, whole.ending = .exited status ↔ heard.findSome? Reply.exit? = some status) ∧
    (whole.ending = .finished → heard.length = program.length) ∧
    (whole.ending ≠ .finished → ∀ more, converse coloured s (lines ++ more) = whole) ∧
    ∀ (s' : Session) (line : String), s'.eval (Text.trim line) = s'.eval line := by
  intro before program replies heard whole
  have hwhole : whole = _ := converseFrom_eq coloured s (intro ++ "\n") [] lines
  have hending : whole.ending = endingAfter heard := by rw [hwhole]
  have hexited : ∀ status, whole.ending = .exited status ↔
      heard.findSome? Reply.exit? = some status := by
    rw [hending]
    exact endingAfter_reached_exited replies
  have hheard : whole.ending ≠ .brokenOff → heard = replies := by
    rw [hending]
    exact fun hne => (reached_evalAll program s).elim (absurd ·.1 hne) (·.2.2)
  refine ⟨by rw [hwhole], by rw [hwhole], ?_, ?_, hheard, hexited, fun hfinished => ?_,
    fun hne more => ?_, Session.eval_trim⟩
  · rw [hwhole]
    exact List.nil_append _
  · rw [hending]
    rcases reached_evalAll program s with ⟨hbroken, hexists⟩ | ⟨hne, hall, -⟩
    · exact iff_of_true hbroken hexists
    · exact iff_of_false hne fun ⟨reply, hmem, hreply⟩ => hall reply hmem hreply
  · have hnone : heard.findSome? Reply.exit? = none := by
      refine Option.eq_none_iff_forall_ne_some.mpr fun status hstatus => ?_
      rw [← hexited, hfinished] at hstatus
      cases hstatus
    have hall : heard = replies := hheard (by rw [hfinished]; exact nofun)
    rw [hall] at hnone ⊢
    exact Session.length_evalAll program s hnone
  · exact converseFrom_append coloured s (intro ++ "\n") [] lines more hne

end Shell

end FrameLisp
