import Mathlib

/-!
# Accounting of a computation

A state is measured by `μ : σ → ι → M`, say the total amount of each asset.  `Shifts μ δ s s'`
says that going from `s` to `s'` moves the measure by `δ`.  Shifts compose by addition, so the
effect of a sequence of payments is the sum of its entries, and a computation that shifts by zero
conserves the measure.
-/

set_option autoImplicit false

namespace KleverGo

variable {σ ι M : Type} [AddCommGroup M]

/-- Going from `s` to `s'` moves the measure `μ` by `δ`. -/
def Shifts (μ : σ → ι → M) (δ : ι → M) (s s' : σ) : Prop := ∀ i, μ s' i = μ s i + δ i

/-- The entry of an account book: `v` at `i`, nothing elsewhere. -/
def entry [DecidableEq ι] (i : ι) (v : M) : ι → M := fun j => if j = i then v else 0

section
variable [DecidableEq ι]

@[simp] theorem entry_self (i : ι) (v : M) : entry i v i = v := by simp [entry]

theorem entry_ne {i j : ι} (h : j ≠ i) (v : M) : entry i v j = 0 := by simp [entry, h]

@[simp] theorem entry_zero (i : ι) : entry i (0 : M) = 0 := by
  funext j
  simp [entry]

theorem entry_neg (i : ι) (v : M) (j : ι) : entry i (-v) j = - entry i v j := by
  by_cases h : j = i <;> simp [entry, h]

theorem entry_add (i : ι) (v w : M) : entry i v + entry i w = entry i (v + w) := by
  funext j
  by_cases h : j = i <;> simp [entry, h]

end

namespace Shifts

variable {μ : σ → ι → M} {δ δ1 δ2 : ι → M} {s s1 s2 : σ}

theorem refl (μ : σ → ι → M) (s : σ) : Shifts μ 0 s s := fun i => by simp

theorem trans (h1 : Shifts μ δ1 s s1) (h2 : Shifts μ δ2 s1 s2) : Shifts μ (δ1 + δ2) s s2 := by
  intro i
  rw [h2 i, h1 i, Pi.add_apply, add_assoc]

end Shifts

end KleverGo
