/-
FrameLisp/Proofs/Evaluation/Contract.lean

What each primitive asks of its arguments.

The demands of a primitive are of two kinds, and each has a table: how many arguments it takes
(`arity`), and what it objects to if their number is right (`Objects`).  The number is checked
first, so a call ends in one of four ways,

    the number is wrong   a fault about the number
    it is right, but      a fault that names the argument objected to
    `exit`                a request to exit, with the status `Leaves` says
    any other primitive   a value,

and the four exclude each other (`call_ends`).  So each kind of fault is raised exactly
where the tables say, whatever the other arguments are.  Arithmetic checks its arguments one by
one while it goes along; that it objects to the leftmost one that is not a number, and gives
the left fold if there is none, is an induction over the arguments.
-/
import FrameLisp.Eval
import FrameLisp.Proofs.Evaluation.Primitives
import FrameLisp.Proofs.Number.Values

namespace FrameLisp

/-- Whether an expression is a number. -/
def Expr.isNumber : Expr → Bool
  | .number _ => true
  | _ => false

namespace Primitive

/-! ### The tables -/

/-- How many arguments are taken. -/
inductive Arity where
  | any
  | atLeastOne
  | exactly (count : Nat)

/-- The numbers of arguments that an arity allows. -/
def Arity.Admits : Arity → Nat → Prop
  | .any, _ => True
  | .atLeastOne, n => n ≠ 0
  | .exactly count, n => n = count

/-- How many arguments a primitive takes. -/
def arity : Primitive → Arity
  | .add | .sub | .mul | .div => .atLeastOne
  | .eq | .le | .ge | .lt | .gt | .pow | .cons => .exactly 2
  | .sin | .cos | .abs | .stringLength | .car | .cdr => .exactly 1
  | .sequence | .exit | .stringAppend | .list | .print => .any

/-- Whether all arguments of a primitive have to be numbers. -/
def isNumeric : Primitive → Bool
  | .add | .sub | .mul | .div | .eq | .le | .ge | .lt | .gt | .pow | .sin | .cos | .abs => true
  | _ => false

/-- The operation of an arithmetic primitive. -/
def operation? : Primitive → Option (Float → Float → Float)
  | .add => some (· + ·)
  | .sub => some (· - ·)
  | .mul => some (· * ·)
  | .div => some (· / ·)
  | _ => none

/-- The leftmost argument that is not a number. -/
def firstOther? (args : List Expr) : Option Expr := args.find? fun a => !a.isNumber

/-- `p.Objects args cause`: a primitive that was given arguments in the right number cannot
do with one of them. -/
inductive Objects : Primitive → List Expr → Fault → Prop
  | number {p args v} :
      p.isNumeric = true → firstOther? args = some v → Objects p args (.notNumber p v)
  | text {v} : (∀ s, v ≠ .text s) → Objects .stringLength [v] (.notText v)
  | car {v} : (∀ xs, v ≠ .list xs) → Objects .car [v] (.notList .car v)
  | cdr {v} : (∀ xs, v ≠ .list xs) → Objects .cdr [v] (.notList .cdr v)
  | cons {v w} :
      w ≠ .nil → (∀ xs, w ≠ .list xs) → Objects .cons [v, w] (.notList .cons w)
  | status {v rest} : (∀ x, v ≠ .number x) → Objects .exit (v :: rest) (.notNumber .exit v)
  | notFinite {x rest} :
      x.isFinite = false → Objects .exit (.number x :: rest) (.statusNotFinite x)

/-- The status that `exit` leaves with: the first argument without what comes after the
point. -/
inductive Leaves : List Expr → Int → Prop
  | zero : Leaves [] 0
  | status {x rest q n} :
      Number.exactValue? x = some q → Number.IsTruncation q n → Leaves (.number x :: rest) n

variable {p : Primitive} {args : List Expr} {v w : Expr} {cause : Fault}

theorem Objects.kind (h : p.Objects args cause) : cause.kind = .type := by
  cases h <;> rfl

theorem objects_numeric (hp : p.isNumeric = true) :
    p.Objects args cause ↔ ∃ v, firstOther? args = some v ∧ cause = .notNumber p v := by
  constructor
  · intro h
    cases h with
    | number _ hv => exact ⟨_, hv, rfl⟩
    | text | car | cdr | cons | status | notFinite => cases hp
  · rintro ⟨v, hv, rfl⟩
    exact .number hp hv

/-- There is at most one thing to object to. -/
theorem Objects.unique {cause' : Fault} (h : p.Objects args cause) (h' : p.Objects args cause') :
    cause = cause' := by
  by_cases hp : p.isNumeric = true
  · obtain ⟨v, hv, rfl⟩ := (objects_numeric hp).mp h
    obtain ⟨v', hv', rfl⟩ := (objects_numeric hp).mp h'
    rw [Option.some.inj (hv.symm.trans hv')]
  · cases h with
    | number hnumeric _ => exact absurd hnumeric hp
    | text | car | cdr | cons =>
        cases h' with
        | number hnumeric _ => exact absurd hnumeric hp
        | _ => rfl
    | status hv =>
        cases h' with
        | number hnumeric _ => exact absurd hnumeric hp
        | status => rfl
        | notFinite => exact absurd rfl (hv _)
    | notFinite =>
        cases h' with
        | number hnumeric _ => exact absurd hnumeric hp
        | status hv => exact absurd rfl (hv _)
        | notFinite => rfl

/-- What `exit` can leave with it does not object to. -/
theorem Leaves.not_objects {n : Int} (h : Leaves args n) : ¬Objects .exit args cause := by
  intro hobjects
  cases h with
  | zero => cases hobjects with | number hnumeric _ => cases hnumeric
  | status hq htruncation =>
      cases hobjects with
      | number hnumeric _ => cases hnumeric
      | status hv => exact hv _ rfl
      | notFinite hfinite =>
          have hsome := Number.truncate?_eq_some_iff.mpr ⟨_, hq, htruncation⟩
          rw [Number.truncate?_eq_none_iff.mpr hfinite] at hsome
          cases hsome

theorem Leaves.unique {n n' : Int} (h : Leaves args n) (h' : Leaves args n') : n = n' := by
  cases h with
  | zero => cases h' with | zero => rfl
  | status hq htruncation =>
      cases h' with
      | status hq' htruncation' =>
          cases hq.symm.trans hq'
          exact htruncation.unique htruncation'

/-! ### How a call can end -/

/-- The results that the tables allow. -/
inductive Ends (p : Primitive) (args : List Expr) : Result → Prop
  | count {cause : Fault} :
      ¬p.arity.Admits args.length → cause.kind = .arity → Ends p args (.error (.fault cause))
  | objects {cause : Fault} :
      p.arity.Admits args.length → p.Objects args cause → Ends p args (.error (.fault cause))
  | leaves {n} : p = .exit → Leaves args n → Ends p args (.error (.exit n))
  | value {v : Expr} {t : String} :
      p ≠ .exit → p.arity.Admits args.length → (∀ cause, ¬p.Objects args cause) →
      (p ≠ .print → t = "") → Ends p args (.ok (v, t))

/-- A primitive with one argument goes on with it. -/
theorem ends_one (hp : p.arity = .exactly 1) {k : Expr → Result}
    (hk : ∀ v, args = [v] → p.Ends args (k v)) : p.Ends args (p.one args >>= k) := by
  have hcount : args.length ≠ 1 → ¬p.arity.Admits args.length := fun hlen => by rwa [hp]
  match args with
  | [] => exact .count (hcount nofun) rfl
  | [v] => exact hk v rfl
  | _ :: _ :: _ => exact .count (hcount (by simp)) rfl

/-- A primitive with two arguments goes on with both. -/
theorem ends_two (hp : p.arity = .exactly 2) {k : Expr × Expr → Result}
    (hk : ∀ v w, args = [v, w] → p.Ends args (k (v, w))) : p.Ends args (p.two args >>= k) := by
  have hcount : args.length ≠ 2 → ¬p.arity.Admits args.length := fun hlen => by rwa [hp]
  match args with
  | [] => exact .count (hcount nofun) rfl
  | [_] => exact .count (hcount (by simp)) rfl
  | [v, w] => exact hk v w rfl
  | _ :: _ :: _ :: _ => exact .count (hcount (by simp)) rfl

/-! ### Numbers -/

theorem number_cases (p : Primitive) (v : Expr) :
    (∃ x, v = .number x ∧ p.number v = .ok x) ∨
      (v.isNumber = false ∧ p.number v = .error (.fault (.notNumber p v))) := by
  cases v with
  | number x => exact .inl ⟨x, rfl, rfl⟩
  | _ => exact .inr ⟨rfl, rfl⟩

theorem firstOther?_number (x : Float) (args : List Expr) :
    firstOther? (.number x :: args) = firstOther? args :=
  List.find?_cons_of_neg (by simp [Expr.isNumber])

theorem firstOther?_other (hv : v.isNumber = false) (args : List Expr) :
    firstOther? (v :: args) = some v :=
  List.find?_cons_of_pos (by simp [hv])

theorem firstOther?_numbers (xs : List Float) : firstOther? (xs.map .number) = none := by
  induction xs with
  | nil => rfl
  | cons x xs ih => rw [List.map_cons, firstOther?_number, ih]

/-- Arguments are all numbers, or there is a leftmost one that is not. -/
theorem numbers_or_other (args : List Expr) :
    (∃ xs : List Float, args = xs.map .number) ∨ ∃ v, firstOther? args = some v := by
  induction args with
  | nil => exact .inl ⟨[], rfl⟩
  | cons a args ih =>
      cases ha : a.isNumber with
      | false => exact .inr ⟨a, firstOther?_other ha args⟩
      | true =>
          obtain ⟨x, rfl, -⟩ | ⟨hother, -⟩ := number_cases .add a
          · obtain ⟨xs, rfl⟩ | ⟨v, hv⟩ := ih
            · exact .inl ⟨x :: xs, rfl⟩
            · exact .inr ⟨v, (firstOther?_number x args).trans hv⟩
          · rw [ha] at hother
            cases hother

/-- The steps of a fold, with the check of each argument. -/
def combine (p : Primitive) (op : Float → Float → Float) (start : Float) (args : List Expr) :
    Except Stop Float :=
  args.foldlM (fun acc v => return op acc (← p.number v)) start

theorem combine_cons (op : Float → Float → Float) (start : Float) :
    p.combine op start (v :: args) = p.number v >>= fun x => p.combine op (op start x) args := by
  rw [combine, List.foldlM_cons, bind_assoc]
  rfl

/-- Numbers are combined from the left. -/
theorem combine_numbers (op : Float → Float → Float) (start : Float) (xs : List Float) :
    p.combine op start (xs.map .number) = .ok (xs.foldl op start) := by
  induction xs generalizing start with
  | nil => rfl
  | cons x xs ih =>
      rw [List.map_cons, combine_cons]
      exact ih (op start x)

/-- The leftmost argument that is not a number stops the fold. -/
theorem combine_other (op : Float → Float → Float) (start : Float)
    (hv : firstOther? args = some v) :
    p.combine op start args = .error (.fault (.notNumber p v)) := by
  induction args generalizing start with
  | nil => cases hv
  | cons a args ih =>
      rw [combine_cons]
      obtain ⟨x, rfl, hx⟩ | ⟨hother, herror⟩ := number_cases p a
      · rw [hx]
        exact ih (op start x) ((firstOther?_number x args).symm.trans hv)
      · cases (firstOther?_other hother args).symm.trans hv
        rw [herror]
        rfl

section Numeric

variable (hp : p.isNumeric = true) (hadmits : p.arity.Admits args.length)

include hp hadmits

theorem ends_other (hv : firstOther? args = some v) :
    p.Ends args (.error (.fault (.notNumber p v))) :=
  .objects hadmits (.number hp hv)

theorem ends_numbers (hargs : firstOther? args = none) (v : Expr) : p.Ends args (value v) := by
  refine .value ?_ hadmits (fun cause hobjects => ?_) fun _ => rfl
  · rintro rfl
    cases hp
  · obtain ⟨w, hw, -⟩ := (objects_numeric hp).mp hobjects
    rw [hargs] at hw
    cases hw

end Numeric

theorem fold_cons (op : Float → Float → Float) (x : Float) (args : List Expr) :
    p.fold op (.number x :: args) =
      p.combine op x args >>= fun total => value (.number total) := rfl

theorem fold_ends (hp : p.isNumeric = true) (harity : p.arity = .atLeastOne)
    (op : Float → Float → Float) : p.Ends args (p.fold op args) := by
  cases args with
  | nil => exact .count (by rw [harity]; exact fun hne => hne rfl) rfl
  | cons a args =>
      have hadmits : p.arity.Admits (a :: args).length := by
        rw [harity]
        exact Nat.succ_ne_zero _
      obtain ⟨x, rfl, -⟩ | ⟨hother, herror⟩ := number_cases p a
      · rw [fold_cons]
        obtain ⟨xs, rfl⟩ | ⟨v, hv⟩ := numbers_or_other args
        · rw [combine_numbers]
          exact ends_numbers hp hadmits (firstOther?_numbers (x :: xs)) _
        · rw [combine_other op x hv]
          exact ends_other hp hadmits ((firstOther?_number x args).trans hv)
      · have hfold : p.fold op (a :: args) = .error (.fault (.notNumber p a)) := by
          rw [fold, herror]
          rfl
        rw [hfold]
        exact ends_other hp hadmits (firstOther?_other hother args)

theorem binary_ends (hp : p.isNumeric = true) (harity : p.arity = .exactly 2)
    (op : Float → Float → Float) : p.Ends args (p.binary op args) := by
  refine ends_two harity fun v w hargs => ?_
  subst hargs
  have hadmits : p.arity.Admits [v, w].length := by rw [harity]; rfl
  dsimp only
  obtain ⟨x, rfl, hx⟩ | ⟨hother, herror⟩ := number_cases p v
  · rw [hx]
    obtain ⟨y, rfl, hy⟩ | ⟨hother, herror⟩ := number_cases p w
    · rw [hy]
      exact ends_numbers hp hadmits (firstOther?_numbers [x, y]) _
    · rw [herror]
      refine ends_other hp hadmits ?_
      rw [firstOther?_number, firstOther?_other hother]
  · rw [herror]
    exact ends_other hp hadmits (firstOther?_other hother _)

theorem unary_ends (hp : p.isNumeric = true) (harity : p.arity = .exactly 1)
    (op : Float → Float) : p.Ends args (p.unary op args) := by
  refine ends_one harity fun v hargs => ?_
  subst hargs
  have hadmits : p.arity.Admits [v].length := by rw [harity]; rfl
  obtain ⟨x, rfl, hx⟩ | ⟨hother, herror⟩ := number_cases p v
  · rw [hx]
    exact ends_numbers hp hadmits (firstOther?_numbers [x]) _
  · rw [herror]
    exact ends_other hp hadmits (firstOther?_other hother _)

/-! ### Exit -/

theorem leave_number {x : Float} {n : Int} (hn : Number.truncate? x = some n) (rest : List Expr) :
    leave (.number x :: rest) = .error (.exit n) := by
  simp only [leave, number, bind, Except.bind, hn]

theorem leave_notFinite {x : Float} (hx : Number.truncate? x = none) (rest : List Expr) :
    leave (.number x :: rest) = .error (.fault (.statusNotFinite x)) := by
  simp only [leave, number, bind, Except.bind, hx]

theorem leave_ends : Primitive.exit.Ends args (leave args) := by
  cases args with
  | nil => exact .leaves rfl .zero
  | cons v rest =>
      obtain ⟨x, rfl, -⟩ | ⟨hother, herror⟩ := number_cases .exit v
      · cases hx : Number.truncate? x with
        | some n =>
            rw [leave_number hx]
            obtain ⟨q, hq, hn⟩ := Number.truncate?_eq_some_iff.mp hx
            exact .leaves rfl (.status hq hn)
        | none =>
            rw [leave_notFinite hx]
            exact .objects trivial (.notFinite (Number.truncate?_eq_none_iff.mp hx))
      · have hleave : leave (v :: rest) = .error (.fault (.notNumber .exit v)) := by
          rw [leave, herror]
          rfl
        rw [hleave]
        refine .objects trivial (.status fun x hx => ?_)
        rw [hx] at hother
        cases hother

/-! ### Texts and lists -/

theorem items_cases (p : Primitive) (v : Expr) :
    (∃ xs, v = .list xs ∧ p.items v = .ok xs) ∨
      ((∀ xs, v ≠ .list xs) ∧ p.items v = .error (.fault (.notList p v))) := by
  cases v with
  | list xs => exact .inl ⟨xs, rfl, rfl⟩
  | _ => exact .inr ⟨nofun, rfl⟩

/-- A value for arguments that there is nothing to object to. -/
theorem ends_value (hexit : p ≠ .exit) (hadmits : p.arity.Admits args.length)
    (hnone : ∀ cause, ¬p.Objects args cause) (v : Expr) : p.Ends args (value v) :=
  .value hexit hadmits hnone fun _ => rfl

/-- A primitive that takes one list. -/
theorem list_ends (hp : p = .car ∨ p = .cdr) (result : List Expr → Expr) :
    p.Ends args (p.one args >>= fun v => p.items v >>= fun xs => value (result xs)) := by
  have harity : p.arity = .exactly 1 := by rcases hp with rfl | rfl <;> rfl
  refine ends_one harity fun v hargs => ?_
  subst hargs
  have hadmits : p.arity.Admits [v].length := by rw [harity]; rfl
  obtain ⟨xs, rfl, hxs⟩ | ⟨hother, herror⟩ := items_cases p v
  · rw [hxs]
    refine ends_value (by rcases hp with rfl | rfl <;> decide) hadmits (fun cause hobjects => ?_) _
    rcases hp with rfl | rfl
    · cases hobjects with
      | number hnumeric _ => cases hnumeric
      | car hv => exact hv xs rfl
    · cases hobjects with
      | number hnumeric _ => cases hnumeric
      | cdr hv => exact hv xs rfl
  · rw [herror]
    rcases hp with rfl | rfl
    · exact .objects hadmits (.car hother)
    · exact .objects hadmits (.cdr hother)

theorem stringLength_ends : Primitive.stringLength.Ends args (call .stringLength args) := by
  have hadmits : Primitive.stringLength.arity.Admits 1 := rfl
  refine ends_one rfl fun v hargs => ?_
  subst hargs
  cases v with
  | text s =>
      show Primitive.stringLength.Ends [.text s] (value _)
      refine ends_value (by decide) hadmits (fun cause hobjects => ?_) _
      cases hobjects with
      | number hnumeric _ => cases hnumeric
      | text hv => exact hv s rfl
  | _ => exact .objects hadmits (.text nofun)

theorem cons_ends : Primitive.cons.Ends args (call .cons args) := by
  have hadmits : Primitive.cons.arity.Admits 2 := rfl
  refine ends_two rfl fun v w hargs => ?_
  subst hargs
  cases w with
  | nil =>
      show Primitive.cons.Ends [v, .nil] (value _)
      refine ends_value (by decide) hadmits (fun cause hobjects => ?_) _
      cases hobjects with
      | number hnumeric _ => cases hnumeric
      | cons hnil _ => exact hnil rfl
  | list xs =>
      show Primitive.cons.Ends [v, .list xs] (value _)
      refine ends_value (by decide) hadmits (fun cause hobjects => ?_) _
      cases hobjects with
      | number hnumeric _ => cases hnumeric
      | cons _ hlist => exact hlist xs rfl
  | _ => exact .objects hadmits (.cons nofun nofun)

theorem arity_ne_any (hp : p.isNumeric = true) : p.arity ≠ .any := by
  intro harity
  cases p <;> first | (cases harity; done) | cases hp

/-- A primitive that takes any number of arguments takes any arguments, unless it is `exit`. -/
theorem not_objects_of_any (harity : p.arity = .any) (hexit : p ≠ .exit) (cause : Fault) :
    ¬p.Objects args cause := by
  intro hobjects
  cases hobjects with
  | number hnumeric _ => exact arity_ne_any hnumeric harity
  | status | notFinite => exact hexit rfl
  | text | car | cdr | cons => cases harity

/-- **Every call ends as the tables say.** -/
theorem call_ends (p : Primitive) (args : List Expr) : p.Ends args (p.call args) := by
  cases p with
  | sequence | stringAppend | list | print =>
      exact .value (by decide) trivial (not_objects_of_any rfl (by decide)) (by simp)
  | exit => exact leave_ends
  | add | sub | mul | div => exact fold_ends rfl rfl _
  | eq | le | ge | lt | gt | pow => exact binary_ends rfl rfl _
  | sin | cos | abs => exact unary_ends rfl rfl _
  | stringLength => exact stringLength_ends
  | car => exact list_ends (.inl rfl) fun xs => xs.head?.getD .nil
  | cdr => exact list_ends (.inr rfl) fun xs => .list xs.tail
  | cons => exact cons_ends

/-! ### The four ways exclude each other -/

namespace Ends

variable {r : Result}

theorem arity_iff (h : p.Ends args r) :
    (∃ cause, r = .error (.fault cause) ∧ cause.kind = .arity) ↔ ¬p.arity.Admits args.length := by
  cases h with
  | count hcount hkind => exact iff_of_true ⟨_, rfl, hkind⟩ hcount
  | objects hadmits hobjects =>
      refine iff_of_false ?_ (not_not_intro hadmits)
      rintro ⟨cause, hcause, hkind⟩
      cases hcause
      cases hobjects.kind.symm.trans hkind
  | leaves hexit _ =>
      refine iff_of_false nofun (not_not_intro ?_)
      rw [hexit]
      trivial
  | value _ hadmits => exact iff_of_false nofun (not_not_intro hadmits)

theorem type_iff (h : p.Ends args r) (cause : Fault) :
    (r = .error (.fault cause) ∧ cause.kind = .type) ↔
      p.arity.Admits args.length ∧ p.Objects args cause := by
  cases h with
  | count hcount hkind =>
      refine iff_of_false ?_ fun hobjects => hcount hobjects.1
      rintro ⟨hcause, htype⟩
      cases hcause
      cases hkind.symm.trans htype
  | objects hadmits hobjects =>
      constructor
      · rintro ⟨hcause, -⟩
        cases hcause
        exact ⟨hadmits, hobjects⟩
      · rintro ⟨-, hobjects'⟩
        rw [hobjects.unique hobjects']
        exact ⟨rfl, hobjects'.kind⟩
  | leaves hexit hleaves =>
      subst hexit
      exact iff_of_false nofun fun hobjects => hleaves.not_objects hobjects.2
  | value _ _ hnone => exact iff_of_false nofun fun hobjects => hnone cause hobjects.2

theorem exit_iff (h : p.Ends args r) (n : Int) :
    r = .error (.exit n) ↔ p = .exit ∧ Leaves args n := by
  cases h with
  | count hcount _ =>
      refine iff_of_false nofun ?_
      rintro ⟨rfl, -⟩
      exact hcount trivial
  | objects _ hobjects =>
      refine iff_of_false nofun ?_
      rintro ⟨rfl, hleaves⟩
      exact hleaves.not_objects hobjects
  | leaves hexit hleaves =>
      constructor
      · intro hn
        cases hn
        exact ⟨hexit, hleaves⟩
      · rintro ⟨-, hleaves'⟩
        rw [hleaves.unique hleaves']
  | value hexit => exact iff_of_false nofun fun hleaves => hexit hleaves.1

/-- In all other cases `exit` exits and every other primitive gives a value. -/
theorem otherwise (h : p.Ends args r) (hadmits : p.arity.Admits args.length)
    (hnone : ∀ cause, ¬p.Objects args cause) :
    (p = .exit → ∃ n, r = .error (.exit n)) ∧ (p ≠ .exit → ∃ v t, r = .ok (v, t)) := by
  cases h with
  | count hcount _ => exact absurd hadmits hcount
  | objects _ hobjects => exact absurd hobjects (hnone _)
  | leaves hexit _ => exact ⟨fun _ => ⟨_, rfl⟩, fun hne => absurd hexit hne⟩
  | value hexit => exact ⟨fun heq => absurd heq hexit, fun _ => ⟨_, _, rfl⟩⟩

end Ends

theorem call_operation {op : Float → Float → Float} (hop : p.operation? = some op) (x : Float)
    (xs : List Float) :
    p.call (.number x :: xs.map .number) = .ok (.number (xs.foldl op x), "") := by
  have hfold : p.fold op (.number x :: xs.map .number) = .ok (.number (xs.foldl op x), "") := by
    rw [fold_cons, combine_numbers]
    rfl
  cases p with
  | add | sub | mul | div =>
      cases hop
      exact hfold
  | _ => cases hop

/-- A call leaves all frames as they are, and only `print` prints. -/
theorem callPrimitive_machine (p : Primitive) (args : List Expr) (m : Machine) :
    (EvalM.callPrimitive p args m).2.heap = m.heap ∧
      (p ≠ .print → (EvalM.callPrimitive p args m).2.printed = m.printed) := by
  have hends := call_ends p args
  unfold EvalM.callPrimitive
  cases hcall : p.call args with
  | error stop => exact ⟨rfl, fun _ => rfl⟩
  | ok result =>
      refine ⟨rfl, fun hprint => ?_⟩
      rw [hcall] at hends
      cases hends with
      | value _ _ _ hsilent =>
          show m.printed ++ _ = m.printed
          rw [hsilent hprint, String.append_empty]

end Primitive

/-- **The error contract of the primitives**, for any arguments.  A call is a fault about the
number of arguments exactly if this number is not one that `arity` admits.  It is a fault about
their types exactly if the number is right and `Objects` says so, and then it is the very fault
named there; arithmetic and comparison object to the leftmost argument that is not a number, and
this is the one their message shows.  `exit` exits exactly with the status that `Leaves` says.
There are no other faults: if the number is right and there is nothing to object to, `exit`
exits and all other primitives give a value, which for arithmetic on numbers is the left fold
of the operation.  No frame is changed, and only `print` prints. -/
theorem primitive_contract (p : Primitive) (args : List Expr) :
    ((∃ cause, p.call args = .error (.fault cause) ∧ cause.kind = .arity) ↔
      ¬p.arity.Admits args.length) ∧
    (∀ cause, (p.call args = .error (.fault cause) ∧ cause.kind = .type) ↔
      p.arity.Admits args.length ∧ p.Objects args cause) ∧
    (∀ v, (Fault.notNumber p v).message = p.name ++ " expects numbers, got " ++ v.render) ∧
    (∀ n, p.call args = .error (.exit n) ↔ p = .exit ∧ Primitive.Leaves args n) ∧
    (p.arity.Admits args.length → (∀ cause, ¬p.Objects args cause) →
      (p = .exit → ∃ n, p.call args = .error (.exit n)) ∧
      (p ≠ .exit → ∃ v t, p.call args = .ok (v, t))) ∧
    (∀ op x (xs : List Float), p.operation? = some op → args = .number x :: xs.map .number →
      p.call args = .ok (.number (xs.foldl op x), "")) ∧
    ∀ m, (EvalM.callPrimitive p args m).2.heap = m.heap ∧
      (p ≠ .print → (EvalM.callPrimitive p args m).2.printed = m.printed) := by
  have hends := Primitive.call_ends p args
  refine ⟨hends.arity_iff, hends.type_iff, fun v => rfl, hends.exit_iff, hends.otherwise, ?_,
    Primitive.callPrimitive_machine p args⟩
  rintro op x xs hop rfl
  exact Primitive.call_operation hop x xs

end FrameLisp
