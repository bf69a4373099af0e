/-
FrameLisp/Proofs/Session/DeepValues.lean

Values nest deeper than any limit.

The limit bounds how deep a program is read and how deep its evaluation nests, but a value
that is already there goes into a list as a whole.  So each of the lines

    (define x (list x))
    (define x (list x))
    ...

nests a little, and makes `x` nest one deeper.  After as many of them as the limit says, the
value of `x` can still be computed and can no longer be written out, and a shell that is to
show it breaks off (`converse_nested`).
-/
import FrameLisp.Proofs.Heap.Readable
import FrameLisp.Proofs.Heap.Visibility
import FrameLisp.Proofs.Reading.Incremental
import FrameLisp.Proofs.Session.Conversation

namespace FrameLisp

/-! ### Lists inside lists -/

namespace Expr

/-- A list inside of `k` others. -/
def nested : Nat → Expr
  | 0 => list []
  | k + 1 => list [nested k]

theorem fits_nested (limit k : Nat) : (nested k).fits limit = decide (k < limit) := by
  induction limit generalizing k with
  | zero => simp [fits]
  | succ limit ih => cases k <;> simp [nested, fits, fitsItems, ih]

/-- The expression that binds `x` to the list of some arguments. -/
def defineList (args : List Expr) : Expr := list [define "x" (list (symbol "list" :: args))]

end Expr

/-! ### The lines as text -/

/-- The line that makes `x` a list without items. -/
def startLine : String := "(define x (list))"

/-- The line that puts `x` into a list. -/
def wrapLine : String := "(define x (list x))"

section Reading

variable {limit : Nat}

theorem readAll_defineList {line : String} {args : List Expr} (ts : List Token)
    (htokens : tokenize line =
      "(" :: (("define" :: "x" :: "(" :: (("list" :: ts) ++ [")"])) ++ [")"]))
    (hargs : DerivesAll ts args) (hlimit : Expr.heightItems [.defineList args] ≤ limit) :
    readAll limit line = .ok [.defineList args] := by
  have halone : FormAlone (.symbol "list" :: args) := by
    intro first rest heq hform
    cases heq
    cases hform
  have hlist : Derives ("(" :: (("list" :: ts) ++ [")"])) (.list (.symbol "list" :: args)) :=
    .list (.cons (.symbol (Token.isName_iff.mp (by decide))) hargs) halone
  have hdefine : DerivesAll ("define" :: "x" :: "(" :: (("list" :: ts) ++ [")"]))
      [.define "x" (.list (.symbol "list" :: args))] := by
    rw [← List.append_nil ("define" :: _)]
    exact .cons (.define isBindable_x hlist) .nil
  refine readAll_ok_iff_derivesAll.mpr ⟨?_, hlimit⟩
  rw [htokens, ← List.append_nil ("(" :: _)]
  exact .cons (.list hdefine (by simp [FormAlone])) .nil

theorem readAll_startLine (hlimit : 4 ≤ limit) :
    readAll limit startLine = .ok [.defineList []] :=
  readAll_defineList [] (by decide) .nil hlimit

theorem readAll_wrapLine (hlimit : 4 ≤ limit) :
    readAll limit wrapLine = .ok [.defineList [.symbol "x"]] :=
  readAll_defineList ["x"] (by decide) (.cons derives_x .nil) hlimit

theorem readAll_x (hlimit : 1 ≤ limit) : readAll limit "x" = .ok [.symbol "x"] := by
  have htokens : tokenize "x" = ["x"] := by decide
  refine readAll_ok_iff_derivesAll.mpr ⟨?_, hlimit⟩
  rw [htokens]
  exact .cons derives_x .nil

end Reading

/-! ### Evaluating them -/

namespace Session

variable {s : Session} {k : Nat}

/-- A new session has every primitive under its name. -/
theorem get?_start (p : Policies) (limit : Nat) (q : Primitive) :
    (start p limit).heap.get? globalFrame q.name = some (.native q) := by
  have hall : q ∈ Primitive.all := by cases q <;> decide
  have hnodup : (standardBindings.map Prod.fst).Nodup := by decide
  refine Heap.get?_defineAll (Nat.zero_lt_succ _) hnodup ?_
  exact List.mem_append_left _ (List.mem_map.mpr ⟨q, hall, rfl⟩)

theorem eval_of_readAll_singleton {source : String} {e : Expr}
    (h : readAll s.limit source = .ok [e]) :
    (s.eval source).outcome = (s.evalExpr e).outcome ∧
      (s.eval source).session = (s.evalExpr e).session := by
  rw [eval_of_readAll_ok h, evalRoots_singleton]
  exact ⟨outcome_evalRoot s e, session_evalRoot s e⟩

/-- The session with another value for `x`. -/
def withX (s : Session) (v : Expr) : Session :=
  { s with heap := s.heap.define globalFrame "x" v }

theorem evalExpr_defineList {limit : Nat} {args values : List Expr}
    (hlist : s.heap.get? globalFrame "list" = some (.native .list))
    (hlimit : s.limit = limit + 3)
    (hargs : args.mapM (FrameLisp.eval (limit + 1) globalFrame) ⟨s.heap, ""⟩ =
      (.ok values, ⟨s.heap, ""⟩)) :
    s.evalExpr (.defineList args) = { outcome := .ok .nil, session := s.withX (.list values) } := by
  have hcall : FrameLisp.eval (limit + 2) globalFrame (.list (.symbol "list" :: args))
      ⟨s.heap, ""⟩ = (.ok (.list values), ⟨s.heap, ""⟩) := by
    rw [eval_apply rfl, Run.bind_ok (eval_symbol_of_get? hlist _), Run.bind_ok hargs]
    rfl
  have hrun : FrameLisp.eval s.limit globalFrame (.defineList args) ⟨s.heap, ""⟩ =
      (.ok .nil, ⟨s.heap.define globalFrame "x" (.list values), ""⟩) := by
    rw [hlimit]
    exact Run.bind_ok hcall
  rw [evalExpr_eq hrun]
  rfl

/-- `x` is a list inside of `k` others, and there is enough room to put it into one more. -/
structure HoldsNested (s : Session) (k : Nat) : Prop where
  list : s.heap.get? globalFrame "list" = some (.native .list)
  value : s.heap.get? globalFrame "x" = some (.nested k)
  room : 4 ≤ s.limit

theorem holdsNested_withX (hlist : s.heap.get? globalFrame "list" = some (.native .list))
    (hroom : 4 ≤ s.limit) (k : Nat) : (s.withX (.nested k)).HoldsNested k where
  list := (Heap.get?_define_of_name_ne (by decide)).trans hlist
  value := by
    have hbinds : s.heap.binds globalFrame "list" = true := by
      rw [← Heap.get?_isSome, hlist, Option.isSome_some]
    obtain ⟨frame, hframe, -⟩ := Heap.binds_eq_true_iff.mp hbinds
    exact Heap.get?_define_self (Heap.lt_next_of_frame? hframe)
  room := hroom

theorem HoldsNested.eval_x (h : s.HoldsNested k) :
    (s.eval "x").outcome = .ok (.nested k) ∧ (s.eval "x").session = s := by
  have hone : 1 ≤ s.limit := Nat.le_trans (by decide) h.room
  obtain ⟨limit, hlimit⟩ := Nat.exists_eq_add_of_le' hone
  have hrun : FrameLisp.eval s.limit globalFrame (.symbol "x") { heap := s.heap } =
      (.ok (.nested k), ⟨s.heap, ""⟩) := by
    rw [hlimit]
    exact eval_symbol_of_get? h.value limit
  have heval := eval_of_readAll_singleton (readAll_x hone)
  rw [evalExpr_eq hrun] at heval
  exact heval

end Session

/-! ### The shell -/

namespace Shell

variable {coloured : Bool} {s : Session} {k : Nat}

/-- A line that binds `x` to a list lets the shell go on. -/
theorem step_defineList {line : String} {limit : Nat} {args values : List Expr}
    (hblank : Text.trim line ≠ "") (hend : Text.trim line ≠ endLine)
    (hread : readAll s.limit line = .ok [.defineList args])
    (hlist : s.heap.get? Session.globalFrame "list" = some (.native .list))
    (hlimit : s.limit = limit + 3)
    (hargs : args.mapM (eval (limit + 1) Session.globalFrame) ⟨s.heap, ""⟩ =
      (.ok values, ⟨s.heap, ""⟩)) :
    (step coloured s line).ending = none ∧
      (step coloured s line).session = s.withX (.list values) := by
  obtain ⟨hout, hsession⟩ := Session.eval_of_readAll_singleton hread
  rw [Session.evalExpr_defineList hlist hlimit hargs] at hout hsession
  have hfits : Expr.fits (s.withX (.list values)).limit .nil = true := by
    show Expr.fits s.limit .nil = true
    rw [hlimit]
    rfl
  rw [step_program coloured s hblank hend, Reply.ending?, hout, hsession]
  exact ⟨if_pos hfits, rfl⟩

theorem step_startLine (hlist : s.heap.get? Session.globalFrame "list" = some (.native .list))
    (hroom : 4 ≤ s.limit) :
    (step coloured s startLine).ending = none ∧
      (step coloured s startLine).session = s.withX (.nested 0) := by
  obtain ⟨limit, hlimit⟩ := Nat.exists_eq_add_of_le' (Nat.le_of_succ_le hroom)
  exact step_defineList (by decide) (by decide) (readAll_startLine hroom) hlist hlimit rfl

theorem step_wrapLine (h : s.HoldsNested k) :
    (step coloured s wrapLine).ending = none ∧
      (step coloured s wrapLine).session = s.withX (.nested (k + 1)) := by
  obtain ⟨limit, hlimit⟩ := Nat.exists_eq_add_of_le' (Nat.le_of_succ_le h.room)
  have hargs : [Expr.symbol "x"].mapM (eval (limit + 1) Session.globalFrame) ⟨s.heap, ""⟩ =
      (.ok [.nested k], ⟨s.heap, ""⟩) := Run.mapM_cons_ok (eval_symbol_of_get? h.value limit) rfl
  exact step_defineList (by decide) (by decide) (readAll_wrapLine h.room) h.list hlimit hargs

/-- A value that does not fit ends the shell. -/
theorem step_x (h : s.HoldsNested k) (hdeep : s.limit ≤ k) :
    (step coloured s "x").ending = some .brokenOff := by
  obtain ⟨hout, hsession⟩ := h.eval_x
  have hfits : ¬(Expr.nested k).fits s.limit = true := by
    rw [Expr.fits_nested, decide_eq_true_iff]
    exact Nat.not_lt.mpr hdeep
  rw [step_program coloured s (by decide) (by decide), Reply.ending?, hout, hsession]
  exact if_neg hfits

/-- Line by line `x` nests deeper, until it does not fit any more. -/
theorem converseFrom_wrapLines {shown : String} {trace : List TraceEntry} (m : Nat)
    (rest : List String) (h : s.HoldsNested k) (hdeep : s.limit ≤ k + m) :
    (converseFrom coloured s shown trace (List.replicate m wrapLine ++ "x" :: rest)).ending =
      .brokenOff := by
  induction m generalizing s k shown trace with
  | zero =>
      rw [List.replicate_zero, List.nil_append, converseFrom_ended (step_x h hdeep)]
  | succ m ih =>
      obtain ⟨hending, hsession⟩ := step_wrapLine h
      rw [List.replicate_succ, List.cons_append, converseFrom_goOn hending, hsession]
      refine ih (Session.holdsNested_withX h.list h.room (k + 1)) ?_
      rw [Nat.add_right_comm]
      exact hdeep

/-- **No shell shows every value.**  Where lists can be made and the limit leaves room for the
line that makes one, as many lines as the limit says make a value at which the shell breaks
off, whatever comes behind. -/
theorem converse_nested (coloured : Bool) (rest : List String)
    (hlist : s.heap.get? Session.globalFrame "list" = some (.native .list))
    (hroom : 4 ≤ s.limit) :
    (converse coloured s
      (startLine :: (List.replicate s.limit wrapLine ++ "x" :: rest))).ending = .brokenOff := by
  obtain ⟨hending, hsession⟩ := step_startLine hlist hroom
  rw [converse, converseFrom_goOn hending, hsession]
  exact converseFrom_wrapLines s.limit rest (Session.holdsNested_withX hlist hroom 0)
    (Nat.le_add_left _ _)

/-- In a new session the line behind the value is not even evaluated. -/
theorem converse_nested_unheard :
    let s := Session.start {} maxNesting
    let lines := startLine :: (List.replicate maxNesting wrapLine ++ ["x"])
    (converse false s lines).ending = .brokenOff ∧
      converse false s (lines ++ ["(print 1)"]) = converse false s lines := by
  intro s lines
  have hbroken : (converse false s lines).ending = .brokenOff :=
    converse_nested false [] (Session.get?_start {} maxNesting .list) (by decide)
  refine ⟨hbroken, converseFrom_append false s (intro ++ "\n") [] lines ["(print 1)"] ?_⟩
  rw [← converse, hbroken]
  exact nofun

end Shell

end FrameLisp
