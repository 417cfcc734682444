import Mathlib

/-!
# Two directories of one relation

A relation between two kinds of parties may be recorded twice: each `i` keeps, under a key, the
`u` on the other side, and each `u` keeps, under the same key, the `i`.  `Mirrored f g` says that
the two directories record the same relation.  Writing both sides of one entry keeps them so.
-/

set_option autoImplicit false

namespace KleverGo

variable {ι υ κ ω α : Type}

/-- The directory `f` with the entry of `i` under `k` replaced. -/
def write [DecidableEq ι] [DecidableEq κ] (f : ι → κ → Option α) (i : ι) (k : κ) (e : Option α) :
    ι → κ → Option α :=
  fun j l => if j = i ∧ l = k then e else f j l

section
variable [DecidableEq ι] [DecidableEq κ]

theorem write_self (f : ι → κ → Option α) (i : ι) (k : κ) (e : Option α) : write f i k e i k = e :=
  if_pos ⟨rfl, rfl⟩

theorem write_write (f : ι → κ → Option α) (i : ι) (k : κ) (e e' : Option α) :
    write (write f i k e) i k e' = write f i k e' := by
  funext j l
  unfold write
  split
  · rfl
  · rfl

theorem write_eq_self {f : ι → κ → Option α} {i : ι} {k : κ} {e : Option α} (h : f i k = e) :
    write f i k e = f := by
  funext j l
  unfold write
  split
  · rename_i hc
    rw [hc.1, hc.2, h]
  · rfl

end

def Mirrored (f : ι → κ → Option (υ × ω)) (g : υ → κ → Option (ι × ω)) : Prop :=
  ∀ i u k w, f i k = some (u, w) ↔ g u k = some (i, w)

namespace Mirrored

variable [DecidableEq ι] [DecidableEq υ] [DecidableEq κ] {f : ι → κ → Option (υ × ω)}
  {g : υ → κ → Option (ι × ω)} {i : ι} {u : υ} {k : κ} {w : ω}

theorem unlink (h : Mirrored f g) (hf : f i k = some (u, w)) :
    Mirrored (write f i k none) (write g u k none) := by
  intro j v l x
  unfold write
  by_cases hj : j = i ∧ l = k
  · obtain ⟨rfl, rfl⟩ := hj
    by_cases hv : v = u
    · simp [hv]
    -- the other party is not the one the entry names
    have hother : g v l ≠ some (j, x) := by
      intro hc
      rw [← h, hf] at hc
      cases hc
      exact hv rfl
    simp [hv, hother]
  · by_cases hv : v = u ∧ l = k
    · obtain ⟨rfl, rfl⟩ := hv
      have hother : f j l ≠ some (v, x) := by
        intro hc
        have hg := (h i v l w).1 hf
        rw [h, hg] at hc
        cases hc
        exact hj ⟨rfl, rfl⟩
      simp [hother]
    · rw [if_neg hj, if_neg hv]
      exact h j v l x

theorem link (h : Mirrored f g) (hf : f i k = none) (hg : g u k = none) :
    Mirrored (write f i k (some (u, w))) (write g u k (some (i, w))) := by
  intro j v l x
  unfold write
  by_cases hj : j = i ∧ l = k
  · obtain ⟨rfl, rfl⟩ := hj
    by_cases hv : v = u
    · simp [hv]
    · have hother : g v l ≠ some (j, x) := by
        rw [ne_eq, ← h, hf]
        simp
      simp [hv, hother, Ne.symm hv]
  · by_cases hv : v = u ∧ l = k
    · obtain ⟨rfl, rfl⟩ := hv
      have hother : f j l ≠ some (v, x) := by
        rw [ne_eq, h, hg]
        simp
      have hne : j ≠ i := fun hc => hj ⟨hc, rfl⟩
      simp [hne, hne.symm, hother]
    · rw [if_neg hj, if_neg hv]
      exact h j v l x

end Mirrored

end KleverGo
