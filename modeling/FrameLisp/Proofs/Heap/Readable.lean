/-
FrameLisp/Proofs/Heap/Readable.lean

Bindings that no program can get at.

A name is looked up only where it stands as a symbol, and not every name can: keywords,
number literals and tokens that start with a quote are read as something else, wherever they
stand.  All of these can be bound, by `define`, by `set!` and as parameters, but no code that
was read has a symbol of that name in it.

`h.readable` is the heap without such bindings.  It is all that code that was read can tell
of a heap: from heaps with

    h₁.readable = h₂.readable

it ends in the same way, prints the same text, and leaves heaps of which this holds again
(`Coupling.readable`).  It need not do the same things to both: `set!` of a name that cannot
be read may write to different frames.
-/
import FrameLisp.Proofs.Expr.Bodies
import FrameLisp.Proofs.Heap.Mapped

namespace FrameLisp

/-! ### Names that can be read -/

namespace Token

variable {t : Token}

/-- Whether a token is read as a symbol. -/
def isName (t : Token) : Bool :=
  match t.shape with
  | .name => true
  | _ => false

theorem isName_iff : t.isName = true ↔ t.IsSymbol := by
  constructor
  · intro h
    have hshape := hasShape_shape t
    unfold isName at h
    split at h
    · next heq =>
        rw [heq] at hshape
        cases hshape with
        | name hsymbol => exact hsymbol
    · cases h
  · intro h
    rw [isName, (HasShape.name h).shape_eq]

theorem isName_eq_false_iff : t.isName = false ↔ ¬t.IsSymbol := by
  rw [← isName_iff, Bool.not_eq_true]

/-- The names that can be bound and not read: keywords, number literals, and tokens that
start with one of the two kinds of quotes. -/
theorem bindable_unreadable_iff :
    (t.IsBindable ∧ t.isName = false) ↔
      (∃ k : Keyword, t = k.name) ∨ (∃ x, Number.ofToken? t = some x) ∨
        t.toList.head? = some '\'' ∨ t.toList.head? = some '"' := by
  rw [isName_eq_false_iff]
  constructor
  · rintro ⟨hbindable, hsymbol⟩
    have hshape := hasShape_shape t
    generalize t.shape = shape at hshape
    cases hshape with
    | opening => exact absurd rfl hbindable.1
    | closing => exact absurd rfl hbindable.2
    | quoteMark r => exact .inr (.inr (.inl (by simp)))
    | number hx => exact .inr (.inl ⟨_, hx⟩)
    | text s => exact .inr (.inr (.inr (by simp)))
    | unterminated hhead _ => exact .inr (.inr (.inr hhead))
    | keyword k => exact .inl ⟨k, rfl⟩
    | name h => exact absurd h hsymbol
  · rintro (⟨k, rfl⟩ | ⟨x, hx⟩ | hquote | hquote)
    · exact ⟨by cases k <;> simp [IsBindable, Keyword.name], fun h => h.notKeyword k rfl⟩
    · refine ⟨?_, fun h => ?_⟩
      · constructor <;> rintro rfl <;> cases hx
      · rw [h.notNumber] at hx
        cases hx
    · exact ⟨isBindable_of_head? hquote (by decide) (by decide), fun h => h.notQuote hquote⟩
    · exact ⟨isBindable_of_head? hquote (by decide) (by decide), fun h => h.notText hquote⟩

end Token

/-- The symbols in what was read have names that can be read. -/
theorem Expr.IsRead.isName {e : Expr} {name : String} (he : e.IsRead)
    (hname : e.Contains (.symbol name)) : Token.isName name = true := by
  obtain ⟨tokens, hderives⟩ := closedUnderParts_isRead.contains hname he
  cases hderives with
  | symbol hsymbol => exact Token.isName_iff.mpr hsymbol

/-- A name can be read exactly if some expression that can be read has a symbol of it. -/
theorem isName_eq_false_iff_not_contains (name : Token) :
    name.isName = false ↔ ∀ tokens e, Derives tokens e → ¬e.Contains (.symbol name) := by
  constructor
  · intro hname tokens e hderives hcontains
    rw [Expr.IsRead.isName ⟨tokens, hderives⟩ hcontains] at hname
    cases hname
  · intro hnever
    rw [Token.isName_eq_false_iff]
    intro hsymbol
    exact hnever [name] (.symbol name) (.symbol hsymbol) .self

/-! ### The readable part of a frame -/

namespace Bindings

variable {b : Bindings} {name : String} {v : Expr}

/-- The bindings of names that can be read. -/
def readable (b : Bindings) : Bindings := b.filter fun p => Token.isName p.1

theorem readable_cons (hname : Token.isName name = true) :
    readable ((name, v) :: b) = (name, v) :: b.readable := by
  simp [readable, hname]

theorem readable_cons_unreadable (hname : Token.isName name = false) :
    readable ((name, v) :: b) = b.readable := by
  simp [readable, hname]

theorem get?_readable (hname : Token.isName name = true) : b.readable.get? name = b.get? name := by
  induction b with
  | nil => rfl
  | cons p rest ih =>
      obtain ⟨n, w⟩ := p
      cases hn : Token.isName n with
      | true => rw [readable_cons hn, get?, get?, ih]
      | false =>
          -- what is left out here is not the name that is looked for
          have hne : n ≠ name := by
            rintro rfl
            rw [hname] at hn
            cases hn
          rw [readable_cons_unreadable hn, get?, if_neg hne, ih]

theorem readable_insert (hname : Token.isName name = true) :
    (b.insert name v).readable = b.readable.insert name v := by
  induction b with
  | nil => simp [insert, readable, hname]
  | cons p rest ih =>
      obtain ⟨n, w⟩ := p
      by_cases heq : n = name
      · subst heq
        simp [insert, readable_cons hname]
      · cases hn : Token.isName n with
        | true => simp [insert, heq, readable_cons hn, ih]
        | false => simp [insert, heq, readable_cons_unreadable hn, ih]

theorem readable_insert_unreadable (hname : Token.isName name = false) :
    (b.insert name v).readable = b.readable := by
  induction b with
  | nil => simp [insert, readable, hname]
  | cons p rest ih =>
      obtain ⟨n, w⟩ := p
      by_cases heq : n = name
      · subst heq
        simp [insert, readable_cons_unreadable hname]
      · cases hn : Token.isName n with
        | true => simp [insert, heq, readable_cons hn, ih]
        | false => simp [insert, heq, readable_cons_unreadable hn, ih]

/-- Of bindings made one after the other, those of names that cannot be read can be left
out. -/
theorem readable_insertAll (pairs : List (String × Expr)) :
    (b.insertAll pairs).readable = b.readable.insertAll (readable pairs) := by
  induction pairs generalizing b with
  | nil => rfl
  | cons p rest ih =>
      obtain ⟨n, w⟩ := p
      show ((b.insert n w).insertAll rest).readable = _
      rw [ih]
      cases hn : Token.isName n with
      | true =>
          rw [readable_cons hn, readable_insert hn]
          rfl
      | false => rw [readable_cons_unreadable hn, readable_insert_unreadable hn]

end Bindings

/-! ### The readable part of a heap -/

namespace Heap

variable {h h₁ h₂ : Heap} {f : FrameId} {name : String} {v : Expr}

/-- The heap without the bindings of names that cannot be read. -/
def readable (h : Heap) : Heap :=
  h.mapFrames fun frame => { frame with bindings := frame.bindings.readable }

@[simp] theorem next_readable : h.readable.next = h.next := next_mapFrames

@[simp] theorem closures_readable : h.readable.closures = h.closures := rfl

@[simp] theorem policies_readable : h.readable.policies f = h.policies f := by
  rw [policies, policies, readable, frame?_mapFrames]
  cases h.frame? f <;> rfl

theorem find?_readable (hname : Token.isName name = true) :
    h.readable.find? f name = h.find? f name :=
  find?_mapFrames (fun _ => Bindings.get?_readable hname) fun _ => rfl

theorem lookup_readable (hname : Token.isName name = true) :
    h.readable.lookup f name = h.lookup f name := by
  have hget : (fun g => h.readable.get? g name) = fun g => h.get? g name :=
    funext fun g => get?_mapFrames fun _ => Bindings.get?_readable hname
  rw [lookup, lookup, find?_readable hname, hget, policies_readable]

theorem target_readable (hname : Token.isName name = true) :
    h.readable.target f name = h.target f name := by
  rw [target, target, find?_readable hname, policies_readable]

theorem readable_define (hname : Token.isName name = true) :
    (h.define f name v).readable = h.readable.define f name v :=
  mapFrames_define fun frame => by
    simp only [Frame.define, Bindings.readable_insert hname]

/-- Binding a name that cannot be read makes no difference. -/
theorem readable_define_unreadable (hname : Token.isName name = false) :
    (h.define f name v).readable = h.readable :=
  mapFrames_define_eq fun frame => by
    simp only [Frame.define, Bindings.readable_insert_unreadable hname]

/-- Of parameters, those that cannot be read make no difference. -/
theorem readable_enter (captured : FrameId) (params : List String) (args : List Expr) :
    (h.enter captured params args).readable =
      h.readable.push
        { bindings := Bindings.insertAll [] (Bindings.readable (params.zip args))
          outer := some captured
          policies := h.policies captured } := by
  rw [enter, readable, mapFrames_push, Bindings.readable_insertAll]
  rfl

theorem bodiesIn_readable {C : Expr → Prop} (hh : h.BodiesIn C) : h.readable.BodiesIn C := by
  intro g frame name v hframe hmem
  rw [readable, frame?_mapFrames, Option.map_eq_some_iff] at hframe
  obtain ⟨frame, hframe, rfl⟩ := hframe
  exact hh hframe (List.mem_filter.mp hmem).1

/-! ### Heaps with the same readable part -/

/-- Heaps with the same readable part, in which closures have bodies that were read. -/
structure ReadAlike (h₁ h₂ : Heap) : Prop where
  eq : h₁.readable = h₂.readable
  bodies : h₁.readable.BodiesIn Expr.IsRead

namespace ReadAlike

theorem lookup_eq (hh : h₁.ReadAlike h₂) (hname : Token.isName name = true) :
    h₁.lookup f name = h₂.lookup f name := by
  rw [← lookup_readable hname, hh.eq, lookup_readable hname]

theorem bodiesIn_of_lookup (hh : h₁.ReadAlike h₂) (hname : Token.isName name = true)
    (hv : h₁.lookup f name = .ok v) : v.BodiesIn Expr.IsRead := by
  rw [← lookup_readable hname] at hv
  obtain rfl | ⟨g, -, frame, hframe, hmem⟩ := lookup_cases hv
  · exact Expr.bodiesIn_atom rfl
  · exact hh.bodies hframe hmem

/-- A name that can be read has to be bound in the same frame, any other name may be bound
in different ones. -/
theorem define (hh : h₁.ReadAlike h₂) (hv : v.BodiesIn Expr.IsRead) {f₁ f₂ : FrameId}
    (hf : Token.isName name = true → f₁ = f₂) :
    (h₁.define f₁ name v).ReadAlike (h₂.define f₂ name v) := by
  by_cases hname : Token.isName name = true
  · cases hf hname
    constructor
    · rw [readable_define hname, readable_define hname, hh.eq]
    · rw [readable_define hname]
      exact hh.bodies.define hv
  · have hname : Token.isName name = false := by simpa using hname
    constructor
    · rw [readable_define_unreadable hname, readable_define_unreadable hname, hh.eq]
    · rw [readable_define_unreadable hname]
      exact hh.bodies

theorem assign (hh : h₁.ReadAlike h₂) (hv : v.BodiesIn Expr.IsRead) :
    (h₁.assign f name v).ReadAlike (h₂.assign f name v) := by
  refine hh.define hv fun hname => ?_
  rw [← target_readable hname, hh.eq, target_readable hname]

theorem countClosure (hh : h₁.ReadAlike h₂) : h₁.countClosure.ReadAlike h₂.countClosure where
  eq := by
    show h₁.readable.countClosure = h₂.readable.countClosure
    rw [hh.eq]
  bodies := hh.bodies

theorem enter (hh : h₁.ReadAlike h₂) {captured : FrameId} {params : List String}
    {args : List Expr} (hargs : ∀ a ∈ args, a.BodiesIn Expr.IsRead) :
    (h₁.enter captured params args).ReadAlike (h₂.enter captured params args) := by
  -- the frame of a call takes over policies, and these are not erased
  have hpolicies : h₁.policies captured = h₂.policies captured := by
    rw [← policies_readable, hh.eq, policies_readable]
  constructor
  · rw [readable_enter, readable_enter, hh.eq, hpolicies]
  · rw [readable_enter]
    refine hh.bodies.push fun p hp => ?_
    rcases Bindings.mem_insertAll hp with hp | hp
    · cases hp
    · exact hargs p.2 (List.of_mem_zip (List.mem_filter.mp hp).1).2

end ReadAlike

end Heap

/-- **Code that was read tells heaps apart by their readable parts only.** -/
def Coupling.readable : Coupling where
  toDiscipline := .ofCode Expr.closedUnderParts_isRead
  rel := Heap.ReadAlike
  next_eq hh := by simpa using congrArg Heap.next hh.eq
  closures_eq hh := by simpa using congrArg Heap.closures hh.eq
  lookup_eq hh _ hcode := hh.lookup_eq (hcode.isName .self)
  value_lookup hh _ hcode hv := hh.bodiesIn_of_lookup (hcode.isName .self) hv
  rel_define hh _ hv := hh.define hv fun _ => rfl
  rel_assign hh _ hv := hh.assign hv
  rel_countClosure hh := hh.countClosure
  rel_enter hh _ hargs := hh.enter hargs
  home_enter _ := trivial

/-! ### Runs and sessions -/

/-- Heaps with the same readable part stay so. -/
theorem eval_readAlike (limit : Nat) (f : FrameId) {e : Expr} {h₁ h₂ : Heap} (he : e.IsRead)
    (hh : h₁.ReadAlike h₂) (t : String) :
    let r₁ := eval limit f e ⟨h₁, t⟩
    let r₂ := eval limit f e ⟨h₂, t⟩
    r₁.1 = r₂.1 ∧ r₁.2.printed = r₂.2.printed ∧ r₁.2.heap.ReadAlike r₂.2.heap := by
  have hrelated : Coupling.readable.Related ⟨h₁, t⟩ ⟨h₂, t⟩ := ⟨hh, rfl⟩
  obtain ⟨r, m₁, m₂, hrun₁, hrun₂, hm, -⟩ :=
    Coupling.readable.eval_alike limit hrelated (f := f) trivial he
  rw [hrun₁, hrun₂]
  exact ⟨rfl, hm.2, hm.1⟩

/-- Sessions with the same readable part give the same replies ever after. -/
theorem reply_readAlike {s₁ s₂ : Session} (hlimit : s₁.limit = s₂.limit)
    (hh : s₁.heap.ReadAlike s₂.heap) (later : List Request) (r : Request) :
    ((s₁.afterAll later).reply? r).map Reply.shown =
      ((s₂.afterAll later).reply? r).map Reply.shown := by
  have hcode : ∀ {n tokens e}, Derives tokens e → Coupling.readable.code n e :=
    fun hderives => ⟨_, hderives⟩
  have hpaired : Coupling.readable.Paired s₁ s₂ := ⟨hh, hlimit, trivial⟩
  exact Coupling.reply_shown_eq hcode (Coupling.afterAll_paired hcode hpaired later) r

/-- **Bindings of names that cannot be read are inert.**  A name cannot be read if no
expression that can be read has a symbol of that name anywhere in it.  The names of which
this holds and that can be bound nevertheless are the keywords, the number literals and the
tokens that start with a quote of either kind.

Code that was read, in whatever frame, ends in the same way and prints the same text from
heaps that are equal without the bindings of such names, and leaves heaps that are so again.
Binding such a name by `define`, by `set!` or as a parameter leaves the heap without such
bindings as it is.  So a session may be replaced at any time by one with other such bindings:
it gives the same replies ever after. -/
theorem unreadable_inert :
    (∀ name : Token,
      (name.isName = false ↔ ∀ tokens e, Derives tokens e → ¬e.Contains (.symbol name)) ∧
      ((name.IsBindable ∧ name.isName = false) ↔
        (∃ k : Keyword, name = k.name) ∨ (∃ x, Number.ofToken? name = some x) ∨
          name.toList.head? = some '\'' ∨ name.toList.head? = some '"')) ∧
    (∀ limit f (e : Expr) (h₁ h₂ : Heap) t, e.IsRead → h₁.readable = h₂.readable →
      h₁.readable.BodiesIn Expr.IsRead →
      let r₁ := eval limit f e ⟨h₁, t⟩
      let r₂ := eval limit f e ⟨h₂, t⟩
      r₁.1 = r₂.1 ∧ r₁.2.printed = r₂.2.printed ∧ r₁.2.heap.readable = r₂.2.heap.readable ∧
        r₁.2.heap.readable.BodiesIn Expr.IsRead) ∧
    (∀ (h : Heap) f (name : Token) v, name.isName = false →
      (h.define f name v).readable = h.readable ∧ (h.assign f name v).readable = h.readable) ∧
    (∀ (h : Heap) captured params args params' args',
      Bindings.readable (params.zip args) = Bindings.readable (params'.zip args') →
      (h.enter captured params args).readable = (h.enter captured params' args').readable) ∧
    (∀ p limit rs (s' : Session),
      let s := (Session.start p limit).afterAll rs
      s'.limit = s.limit → s'.heap.readable = s.heap.readable →
      ∀ later r, ((s'.afterAll later).reply? r).map Reply.shown =
        ((s.afterAll later).reply? r).map Reply.shown) := by
  refine ⟨fun name => ⟨?_, Token.bindable_unreadable_iff⟩, ?_, ?_, ?_, ?_⟩
  · exact isName_eq_false_iff_not_contains name
  · intro limit f e h₁ h₂ t he heq hbodies
    obtain ⟨houtcome, hprinted, hh⟩ := eval_readAlike limit f he ⟨heq, hbodies⟩ t
    exact ⟨houtcome, hprinted, hh.eq, hh.bodies⟩
  · intro h f name v hname
    exact ⟨Heap.readable_define_unreadable hname, Heap.readable_define_unreadable hname⟩
  · intro h captured params args params' args' hpairs
    rw [Heap.readable_enter, Heap.readable_enter, hpairs]
  · intro p limit rs s' s hlimit heq later r
    have hbodies : s.heap.readable.BodiesIn Expr.IsRead :=
      Heap.bodiesIn_readable (Session.afterAll_bodiesIn_isRead p limit rs)
    exact (reply_readAlike hlimit.symm ⟨heq.symm, hbodies⟩ later r).symm

/-- A keyword that is bound in the course of a session, and as the parameter of a call. -/
theorem unreadable_inert_keyword :
    let s := (Session.start {} 9).afterAll [.eval "(define x (lambda (y) y))"]
    let s' : Session := { s with heap := s.heap.define Session.globalFrame "if" (.text "a") }
    let call : Expr := .list [.symbol "x", .symbol "pi"]
    (eval 9 0 call ⟨s'.heap, ""⟩).1 = (eval 9 0 call ⟨s.heap, ""⟩).1 ∧
    (s'.heap.enter 0 ["y", "if"] [.nil, .nil]).readable = (s'.heap.enter 0 ["y"] [.nil]).readable ∧
    ∀ later r, ((s'.afterAll later).reply? r).map Reply.shown =
      ((s.afterAll later).reply? r).map Reply.shown := by
  obtain ⟨-, hruns, hwrites, hcalls, hsessions⟩ := unreadable_inert
  have hstarted := Session.afterAll_bodiesIn_isRead {} 9 [.eval "(define x (lambda (y) y))"]
  have hshown := hsessions {} 9 [.eval "(define x (lambda (y) y))"]
  -- what the session is like does not matter
  generalize (Session.start {} 9).afterAll [.eval "(define x (lambda (y) y))"] = s
    at hstarted hshown ⊢
  intro s s' call
  have hname : Token.isName "if" = false := by decide
  have hheap : s'.heap.readable = s.heap.readable :=
    (hwrites s.heap Session.globalFrame "if" (.text "a") hname).1
  have hread : call.IsRead := by
    have hx : Token.IsSymbol "x" := Token.isName_iff.mp (by decide)
    have hpi : Token.IsSymbol "pi" := Token.isName_iff.mp (by decide)
    exact ⟨_, .list (.cons (.symbol hx) (.cons (.symbol hpi) .nil))
      (by simp [FormAlone, Expr.isForm])⟩
  have hbodies : s'.heap.readable.BodiesIn Expr.IsRead := by
    rw [hheap]
    exact Heap.bodiesIn_readable hstarted
  have hparams : Bindings.readable (["y", "if"].zip [Expr.nil, .nil]) =
      Bindings.readable (["y"].zip [.nil]) := by
    simp [Bindings.readable, hname, List.filter_cons]
  exact ⟨(hruns 9 0 call _ _ "" hread hheap hbodies).1, hcalls s'.heap 0 _ _ _ _ hparams,
    hshown s' rfl hheap⟩

end FrameLisp
