import Mathlib

/-!
# Undo logs

A store logs an entry for each change, newest first, and goes back by undoing the entries after a
mark.  `Undoes same entries s s'` says that undoing `entries` leads from `s'`, and from every state
that is the same as `s'`, back to `s`.  Such blocks of entries compose, so a run of changes is
undone if each change is.
-/

set_option autoImplicit false

namespace KleverGo.Journal

variable {σ ε : Type}

/-- Undoing entries, the newest first. -/
def undoAll (undo : ε → σ → σ) (entries : List ε) (t : σ) : σ :=
  entries.foldl (fun t e => undo e t) t

/-- Undoing the entries leads from `s'` back to `s`. -/
def Undoes (undo : ε → σ → σ) (same : σ → σ → Prop) (entries : List ε) (s s' : σ) : Prop :=
  ∀ t, same t s' → same (undoAll undo entries t) s

variable {undo : ε → σ → σ} {same : σ → σ → Prop} {s s1 s2 : σ}

theorem Undoes.refl (s : σ) : Undoes undo same [] s s := fun _ h => h

theorem Undoes.trans {first second : List ε} (h1 : Undoes undo same first s s1)
    (h2 : Undoes undo same second s1 s2) : Undoes undo same (second ++ first) s s2 := by
  intro t ht
  rw [undoAll, List.foldl_append]
  exact h1 _ (h2 t ht)

end KleverGo.Journal
