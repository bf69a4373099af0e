/-
FrameLisp/Proofs/Run.lean

Runs of the two state monads of the library.

Reading and evaluation are both of type `ExceptT ε (StateM σ)`: a function that
takes a state and gives a result, or the reason why there is none, with a state in
either case.  Here is what the monad operations do as such functions.  The lemma
that later proofs live on is `bind_cases`: a sequence of two steps ended the way it
did either because the first step gave a value and the second one ended so, or
because the first step ended early and the second was never begun.
-/

namespace FrameLisp.Run

variable {ε σ α β : Type}

/-! ### Single steps -/

@[simp] theorem pure_apply (a : α) (s : σ) :
    (pure a : ExceptT ε (StateM σ) α) s = (.ok a, s) := rfl

@[simp] theorem throw_apply (e : ε) (s : σ) :
    (throw e : ExceptT ε (StateM σ) α) s = (.error e, s) := rfl

@[simp] theorem get_apply (s : σ) :
    (get : ExceptT ε (StateM σ) σ) s = (.ok s, s) := rfl

/-! ### Sequences of two steps -/

theorem bind_ok {x : ExceptT ε (StateM σ) α} {k : α → ExceptT ε (StateM σ) β}
    {s s' : σ} {a : α} (h : x s = (.ok a, s')) : (x >>= k) s = k a s' := by
  show (match x s with | (r, s₁) => ExceptT.bindCont k r s₁) = k a s'
  rw [h]
  rfl

theorem bind_error {x : ExceptT ε (StateM σ) α} {k : α → ExceptT ε (StateM σ) β}
    {s s' : σ} {e : ε} (h : x s = (.error e, s')) : (x >>= k) s = (.error e, s') := by
  show (match x s with | (r, s₁) => ExceptT.bindCont k r s₁) = (.error e, s')
  rw [h]
  rfl

/-- What comes next depends on how a step has ended, and on nothing else. -/
theorem bind_congr_apply {x y : ExceptT ε (StateM σ) α} {s s' : σ} (h : x s = y s')
    (k : α → ExceptT ε (StateM σ) β) : (x >>= k) s = (y >>= k) s' := by
  show (match x s with | (r, s₁) => ExceptT.bindCont k r s₁) =
    (match y s' with | (r, s₁) => ExceptT.bindCont k r s₁)
  rw [h]

/-- How a sequence of two steps can have ended. -/
theorem bind_cases {x : ExceptT ε (StateM σ) α} {k : α → ExceptT ε (StateM σ) β}
    {s s' : σ} {r : Except ε β} (h : (x >>= k) s = (r, s')) :
    (∃ a s₁, x s = (.ok a, s₁) ∧ k a s₁ = (r, s')) ∨
      ∃ e, x s = (.error e, s') ∧ r = .error e := by
  rcases hx : x s with ⟨e | a, s₁⟩
  · rw [bind_error hx] at h
    cases h
    exact .inr ⟨e, rfl, rfl⟩
  · rw [bind_ok hx] at h
    exact .inl ⟨a, s₁, rfl, h⟩

theorem bind_eq_ok {x : ExceptT ε (StateM σ) α} {k : α → ExceptT ε (StateM σ) β}
    {s s' : σ} {b : β} (h : (x >>= k) s = (.ok b, s')) :
    ∃ a s₁, x s = (.ok a, s₁) ∧ k a s₁ = (.ok b, s') := by
  obtain hok | ⟨e, -, he⟩ := bind_cases h
  · exact hok
  · cases he

/-! ### A step for each item of a list -/

theorem mapM_cons_ok {g : α → ExceptT ε (StateM σ) β} {a : α} {l : List α} {b : β} {bs : List β}
    {s s₁ s₂ : σ} (ha : g a s = (.ok b, s₁)) (hl : l.mapM g s₁ = (.ok bs, s₂)) :
    (a :: l).mapM g s = (.ok (b :: bs), s₂) := by
  rw [List.mapM_cons, bind_ok ha, bind_ok hl, pure_apply]

/-- What is left to do once the items in front have given their values. -/
theorem mapM_append_cons {g : α → ExceptT ε (StateM σ) β} {l₁ : List α} {bs : List β} {s s₁ : σ}
    (hl₁ : l₁.mapM g s = (.ok bs, s₁)) (a : α) (l₂ : List α) :
    (l₁ ++ a :: l₂).mapM g s =
      (g a >>= fun b => l₂.mapM g >>= fun cs => pure (bs ++ b :: cs)) s₁ := by
  rw [List.mapM_append, bind_ok hl₁]
  simp only [List.mapM_cons, bind_assoc, pure_bind]

/-- The steps all give values, or the items in front of the first that does not do. -/
theorem mapM_cases (g : α → ExceptT ε (StateM σ) β) (l : List α) (s : σ) :
    (∃ bs s', l.mapM g s = (.ok bs, s')) ∨
      ∃ l₁ a l₂ bs s₁ e s₂, l = l₁ ++ a :: l₂ ∧ l₁.mapM g s = (.ok bs, s₁) ∧
        g a s₁ = (.error e, s₂) := by
  induction l generalizing s with
  | nil => exact .inl ⟨[], s, rfl⟩
  | cons a l ih =>
      rcases ha : g a s with ⟨e | b, s₁⟩
      · exact .inr ⟨[], a, l, [], s, e, s₁, rfl, rfl, ha⟩
      · obtain ⟨bs, s', hl⟩ | ⟨l₁, c, l₂, bs, s₂, e, s₃, hl, hl₁, hc⟩ := ih s₁
        · exact .inl ⟨b :: bs, s', mapM_cons_ok ha hl⟩
        · have hcons : a :: l = (a :: l₁) ++ c :: l₂ := by rw [hl, List.cons_append]
          exact .inr ⟨a :: l₁, c, l₂, b :: bs, s₂, e, s₃, hcons, mapM_cons_ok ha hl₁, hc⟩

end FrameLisp.Run
