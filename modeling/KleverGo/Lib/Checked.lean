import Mathlib

/-!
# Checked programs

A fallible operation is a chain of checks and updates in `Except`.  `reject c e` is the early
return `if c { return e }`; the lemmas turn a successful run of such a chain into the list of
facts it established, so that no proof unfolds the monad.

Runs of a partial step over a list of inputs are `List.foldlM`; `foldlM_rule` is their induction
principle, with a motive that may look at the inputs still to come.
-/

set_option autoImplicit false

namespace KleverGo

universe u v

variable {ε : Type u} {α β σ : Type v}

/-- Returns the error `e` when `c` holds. -/
def reject (c : Prop) [Decidable c] (e : ε) : Except ε Unit :=
  if c then .error e else .ok ()

/-- A check that is made only where `c` holds. -/
def checkIf (c : Bool) (x : Except ε Unit) : Except ε Unit := if c then x else .ok ()

/-- The value of an option, or the error `e`. -/
def orError (o : Option α) (e : ε) : Except ε α :=
  match o with
  | some a => .ok a
  | none => .error e

@[simp] theorem bind_eq_ok (x : Except ε α) (f : α → Except ε β) (b : β) :
    (x >>= f) = .ok b ↔ ∃ a, x = .ok a ∧ f a = .ok b := by
  cases x <;> simp [Bind.bind, Except.bind]

theorem bind_eq_error (x : Except ε α) (f : α → Except ε β) (e : ε) :
    (x >>= f) = .error e ↔ x = .error e ∨ ∃ a, x = .ok a ∧ f a = .error e := by
  cases x <;> simp [Bind.bind, Except.bind]

@[simp] theorem pure_ne_error (a : α) (e : ε) : (pure a : Except ε α) ≠ .error e := by
  simp [pure, Except.pure]

@[simp] theorem pure_eq_ok (a b : α) : (pure a : Except ε α) = .ok b ↔ a = b := by
  simp [pure, Except.pure]

variable {x : Except ε α} {a : α}

@[simp] theorem mapError_eq_ok {ε' : Type u} {f : ε → ε'} : x.mapError f = .ok a ↔ x = .ok a := by
  cases x <;> simp [Except.mapError]

theorem map_eq_ok {f : α → β} {b : β} : f <$> x = .ok b ↔ ∃ a, x = .ok a ∧ f a = b := by
  cases x <;> simp [Functor.map, Except.map]

theorem eq_ok_getD (d : α) (h : x.isOk = true) : x = .ok (x.toOption.getD d) := by
  cases x with
  | error e => cases h
  | ok a => rfl

variable {c : Prop} {e : ε} {u : Unit}

@[simp] theorem reject_eq_ok [Decidable c] : reject c e = .ok u ↔ ¬ c := by
  by_cases h : c <;> simp [reject, h]

theorem reject_eq_error [Decidable c] {e' : ε} : reject c e = .error e' ↔ c ∧ e = e' := by
  by_cases h : c <;> simp [reject, h]

@[simp] theorem checkIf_eq_ok {c : Bool} {x : Except ε Unit} :
    checkIf c x = .ok u ↔ (c = true → x = .ok ()) := by
  cases c <;> simp [checkIf]

@[simp] theorem orError_eq_ok {o : Option α} : orError o e = .ok a ↔ o = some a := by
  cases o <;> simp [orError]

/-! ## Runs -/

variable {step : σ → α → Except ε σ}

variable {r : Except ε α}

theorem toOption_eq_some : r.toOption = some a ↔ r = .ok a := by
  cases r <;> simp [Except.toOption]

variable {s : σ}

theorem toOption_map_eq_some {f : α → σ} :
    r.toOption.map f = some s ↔ ∃ a, r = .ok a ∧ f a = s := by
  simp only [Option.map_eq_some_iff, toOption_eq_some]

/-- **Induction along a successful run.**  A predicate of the state and the inputs still to come,
kept by every successful step, holds at the end if it held at the start. -/
theorem foldlM_rule {P : List α → σ → Prop}
    (hstep : ∀ s a as s', P (a :: as) s → step s a = .ok s' → P as s') :
    ∀ (l : List α) (s s' : σ), P l s → l.foldlM step s = .ok s' → P [] s'
  | [], s, s', hs, h => by
    simp only [List.foldlM_nil, pure_eq_ok] at h
    exact h ▸ hs
  | a :: as, s, s', hs, h => by
    simp only [List.foldlM_cons, bind_eq_ok] at h
    obtain ⟨s1, h1, h2⟩ := h
    exact foldlM_rule hstep as s1 s' (hstep s a as s1 hs h1) h2

variable {l : List α}

theorem foldlM_error (h : l.foldlM step s = .error e) : ∃ s' a, step s' a = .error e := by
  induction l generalizing s with
  | nil => cases h
  | cons a as ih =>
    rw [List.foldlM_cons, bind_eq_error] at h
    rcases h with h | ⟨s1, -, h⟩
    · exact ⟨s, a, h⟩
    · exact ih h

theorem foldlM_invariant {P : σ → Prop} (hstep : ∀ s a s', P s → step s a = .ok s' → P s')
    {s' : σ} (hs : P s) (h : l.foldlM step s = .ok s') : P s' :=
  foldlM_rule (P := fun _ => P) (fun s a _ s' => hstep s a s') l s s' hs h

end KleverGo
