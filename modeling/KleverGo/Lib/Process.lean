import Mathlib

/-!
# Processes

A process changes a state and may fail; a failure keeps the state it has left behind.  A `Triple`
says what a process establishes when it succeeds and what it leaves when it fails.  `Lockstep` runs
one process from two related states: it gives the same result in both and leaves related states.
`Relates` says how the end of a process is related to its beginning.  Each has a rule for every way
to build a process.
-/

set_option autoImplicit false

namespace KleverGo

/-- A computation on a state whose failures keep the state. -/
def Process (σ ε α : Type) := σ → Except ε α × σ

namespace Process

variable {σ ε α β : Type}

/-- What comes after a first part: a failure of it is passed on. -/
def andThen (m : Process σ ε α) (f : α → Process σ ε β) : Process σ ε β := fun s =>
  match m s with
  | (.ok a, s') => f a s'
  | (.error e, s') => (.error e, s')

instance : Monad (Process σ ε) where
  pure a := fun s => (.ok a, s)
  bind := andThen

/-- A computation that does not look at the state. -/
def lift (x : Except ε α) : Process σ ε α := fun s => (x, s)

/-- A computation that looks at the state without changing it. -/
def query (f : σ → Except ε α) : Process σ ε α := fun s => (f s, s)

def gets (f : σ → α) : Process σ ε α := fun s => (.ok (f s), s)

def modify (f : σ → σ) : Process σ ε Unit := fun s => (.ok (), f s)

/-- A fallible operation on the state: when it fails, the state stays. -/
def attempt (f : σ → Except ε (α × σ)) : Process σ ε α := fun s =>
  match f s with
  | .ok (a, s') => (.ok a, s')
  | .error e => (.error e, s)

/-! ## What a process establishes -/

/-- The end of a process: a result in `Q`, or a failure in a state in `E`. -/
def Ends (Q : α → σ → Prop) (E : σ → Prop) : Except ε α × σ → Prop
  | (.ok a, s) => Q a s
  | (.error _, s) => E s

/-- From every state in `P` the process ends so. -/
def Triple (P : σ → Prop) (m : Process σ ε α) (Q : α → σ → Prop) (E : σ → Prop) : Prop :=
  ∀ s, P s → Ends Q E (m s)

namespace Triple

variable {P : σ → Prop} {Q Q' : α → σ → Prop} {R : β → σ → Prop} {E : σ → Prop}
  {m : Process σ ε α} {f : α → Process σ ε β}

variable {a : α}

theorem pure (h : ∀ s, P s → Q a s) : Triple P (Pure.pure a : Process σ ε α) Q E :=
  h

theorem bind (hm : Triple P m Q E) (hf : ∀ a, Triple (Q a) (f a) R E) : Triple P (m >>= f) R E := by
  intro s hs
  have hends := hm s hs
  change Ends R E (andThen m f s)
  unfold andThen
  cases hr : m s with
  | mk r s' =>
    rw [hr] at hends
    cases r with
    | error e => exact hends
    | ok a => exact hf a s' hends

theorem of_imp {P' : σ → Prop} (h : ∀ s, P s → P' s) (hm : Triple P' m Q E) : Triple P m Q E :=
  fun s hs => hm s (h s hs)

theorem imp_error {E' : σ → Prop} (hm : Triple P m Q E) (h : ∀ s, E s → E' s) :
    Triple P m Q E' := by
  intro s hs
  have hends := hm s hs
  rcases hr : m s with ⟨r, s'⟩
  rw [hr] at hends
  cases r with
  | error e => exact h s' hends
  | ok a => exact hends

theorem of_and {c : Prop} (h : c → Triple P m Q E) : Triple (fun s => P s ∧ c) m Q E :=
  fun s hs => h hs.2 s hs.1

variable {x : Except ε α}

theorem lift (hok : ∀ a s, x = .ok a → P s → Q a s) (herror : ∀ s, P s → E s) :
    Triple P (Process.lift x) Q E := by
  intro s hs
  unfold Process.lift
  cases x with
  | error e => exact herror s hs
  | ok a => exact hok a s rfl hs

theorem lift_bind (hf : ∀ a, x = .ok a → Triple P (f a) R E) (herror : ∀ s, P s → E s) :
    Triple P (Process.lift x >>= f) R E := by
  intro s hs
  cases hx : x with
  | error e => exact herror s hs
  | ok a => exact hf a hx s hs

theorem lift_ok_bind (hx : x = .ok a) (hf : Triple P (f a) R E) :
    Triple P (Process.lift x >>= f) R E := by
  subst hx
  exact hf

theorem modify {R : Unit → σ → Prop} {g : σ → σ} (h : ∀ s, P s → R () (g s)) :
    Triple P (Process.modify g : Process σ ε Unit) R E :=
  h

theorem query {g : σ → Except ε α} (hok : ∀ s a, P s → g s = .ok a → Q a s)
    (herror : ∀ s, P s → E s) : Triple P (Process.query g) Q E := by
  intro s hs
  unfold Process.query
  cases hg : g s with
  | error e => exact herror s hs
  | ok a => exact hok s a hs hg

theorem gets {g : σ → α} (h : ∀ s, P s → Q (g s) s) :
    Triple P (Process.gets g : Process σ ε α) Q E :=
  h

theorem attempt {g : σ → Except ε (α × σ)} (hok : ∀ s a s', P s → g s = .ok (a, s') → Q a s')
    (herror : ∀ s, P s → E s) :
    Triple P (Process.attempt g) Q E := by
  intro s hs
  unfold Process.attempt
  cases hg : g s with
  | error e => exact herror s hs
  | ok r => exact hok s r.1 r.2 hs hg

end Triple

/-! ## Two runs of one process -/

/-- Two ends with the same result, in related states. -/
def Agree (Q : α → σ → σ → Prop) (E : σ → σ → Prop) : Except ε α × σ → Except ε α × σ → Prop
  | (.ok a, s), (.ok b, t) => a = b ∧ Q a s t
  | (.error e, s), (.error e', t) => e = e' ∧ E s t
  | _, _ => False

theorem Agree.cases {Q : α → σ → σ → Prop} {E : σ → σ → Prop} {r r' : Except ε α × σ}
    (h : Agree Q E r r') :
    (∃ a s t, r = (.ok a, s) ∧ r' = (.ok a, t) ∧ Q a s t) ∨
    ∃ e s t, r = (.error e, s) ∧ r' = (.error e, t) ∧ E s t := by
  rcases r with ⟨e | a, s⟩ <;> rcases r' with ⟨e' | b, t⟩
  · exact .inr ⟨e, s, t, rfl, by rw [h.1], h.2⟩
  · exact h.elim
  · exact h.elim
  · exact .inl ⟨a, s, t, rfl, by rw [h.1], h.2⟩

/-- From related states the process ends the same way. -/
def Lockstep (R : σ → σ → Prop) (m : Process σ ε α) (Q : α → σ → σ → Prop)
    (E : σ → σ → Prop) : Prop :=
  ∀ s t, R s t → Agree Q E (m s) (m t)

namespace Lockstep

variable {R : σ → σ → Prop} {Q : α → σ → σ → Prop} {Q' : β → σ → σ → Prop} {E : σ → σ → Prop}
  {m : Process σ ε α} {f : α → Process σ ε β}

theorem pure {a : α} (h : ∀ s t, R s t → Q a s t) : Lockstep R (Pure.pure a : Process σ ε α) Q E :=
  fun s t hr => ⟨rfl, h s t hr⟩

theorem imp {Q1 : α → σ → σ → Prop} {E1 : σ → σ → Prop} (hm : Lockstep R m Q E)
    (hq : ∀ a s t, Q a s t → Q1 a s t) (he : ∀ s t, E s t → E1 s t) : Lockstep R m Q1 E1 := by
  intro s t hr
  rcases (hm s t hr).cases with ⟨a, s', t', hs, ht, h⟩ | ⟨e, s', t', hs, ht, h⟩
  · rw [hs, ht]
    exact ⟨rfl, hq a s' t' h⟩
  · rw [hs, ht]
    exact ⟨rfl, he s' t' h⟩

theorem bind (hm : Lockstep R m Q E) (hf : ∀ a, Lockstep (Q a) (f a) Q' E) :
    Lockstep R (m >>= f) Q' E := by
  intro s t hr
  change Agree Q' E (andThen m f s) (andThen m f t)
  unfold andThen
  rcases (hm s t hr).cases with ⟨a, s', t', hs, ht, h⟩ | ⟨e, s', t', hs, ht, h⟩
  · rw [hs, ht]
    exact hf a s' t' h
  · rw [hs, ht]
    exact ⟨rfl, h⟩

variable {x : Except ε α}

theorem lift (hok : ∀ a s t, R s t → Q a s t) (herror : ∀ s t, R s t → E s t) :
    Lockstep R (Process.lift x) Q E := by
  intro s t hr
  unfold Process.lift
  cases x with
  | error e => exact ⟨rfl, herror s t hr⟩
  | ok a => exact ⟨rfl, hok a s t hr⟩

theorem lift_bind (hf : ∀ a, x = .ok a → Lockstep R (f a) Q' E) (herror : ∀ s t, R s t → E s t) :
    Lockstep R (Process.lift x >>= f) Q' E := by
  intro s t hr
  cases hx : x with
  | error e => exact ⟨rfl, herror s t hr⟩
  | ok a => exact hf a hx s t hr

theorem modify {R' : Unit → σ → σ → Prop} {g : σ → σ} (h : ∀ s t, R s t → R' () (g s) (g t)) :
    Lockstep R (Process.modify g : Process σ ε Unit) R' E :=
  fun s t hr => ⟨rfl, h s t hr⟩

end Lockstep

/-! ## The beginning and the end of a process -/

/-- What relates the beginning of a process to its end: `R` for a success, `S` for a failure. -/
structure Composes (R S : σ → σ → Prop) : Prop where
  refl : ∀ s, R s s
  fail : ∀ s, S s s
  trans : ∀ s t u, R s t → R t u → R s u
  trans_fail : ∀ s t u, R s t → S t u → S s u

/-- Every end of the process is related to its beginning. -/
def Relates (R S : σ → σ → Prop) (m : Process σ ε α) : Prop :=
  ∀ s, Ends (fun _ t => R s t) (S s) (m s)

namespace Relates

variable {R S : σ → σ → Prop} {m : Process σ ε α} {f : α → Process σ ε β}

theorem bind (h : Composes R S) (hm : Relates R S m) (hf : ∀ a, Relates R S (f a)) :
    Relates R S (m >>= f) := by
  intro s
  have hends := hm s
  change Ends (fun _ t => R s t) (S s) (andThen m f s)
  unfold andThen
  rcases hr : m s with ⟨r, t⟩
  rw [hr] at hends
  cases r with
  | error e => exact hends
  | ok a =>
    dsimp only
    have hrest := hf a t
    rcases hr' : f a t with ⟨r', u⟩
    rw [hr'] at hrest
    cases r' with
    | error e => exact h.trans_fail s t u hends hrest
    | ok b => exact h.trans s t u hends hrest

theorem query (h : Composes R S) {g : σ → Except ε α} : Relates R S (Process.query g) := by
  intro s
  unfold Process.query
  cases g s with
  | error e => exact h.fail s
  | ok a => exact h.refl s

theorem modify {g : σ → σ} (hg : ∀ s, R s (g s)) :
    Relates R S (Process.modify g : Process σ ε Unit) :=
  hg

theorem triple {P : σ → Prop} {E : σ → Prop} (hm : Relates R S m) (hR : ∀ s t, P s → R s t → P t)
    (hS : ∀ s t, P s → S s t → E t) :
    Triple P m (fun _ => P) E := by
  intro s hs
  have hends := hm s
  rcases hr : m s with ⟨r, t⟩
  rw [hr] at hends
  cases r with
  | error e => exact hS s t hs hends
  | ok a => exact hR s t hs hends

end Relates

end Process

end KleverGo
