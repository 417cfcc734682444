import Mathlib

/-!
# Rounding to `float64`

A finite `float64` that is not negative is a whole number of units of `2^-1074`, the least positive
one, with at most 53 significant bits (`IsFloat`).  Every operation of the format rounds its exact
result to the nearest such number, a tie to the one whose last bit is even.  The exact result is
given as a quotient of natural numbers, in units.  Infinities are left out: they begin at `2^1024`.

* `round_le` — **rounding does not go past a `float64`**: what is at most a `float64` is not rounded
  above it.
-/

set_option autoImplicit false

namespace KleverGo.Float64

/-- The number `1`, in units. -/
def one : Nat := 2 ^ 1074

theorem one_pos : 0 < one := pow_pos Nat.two_pos _

/-- `n / d` to the nearest natural number, a tie to the even one. -/
def nearest (n d : Nat) : Nat :=
  if 2 * (n % d) < d then n / d
  else if d < 2 * (n % d) then n / d + 1
  else n / d + n / d % 2

/-- The bits of `n / d` that are beyond the 53 of a significand. -/
def excess (n d : Nat) : Nat := (n / d).log2 - 52

/-- `n / d` rounded to a `float64`. -/
def round (n d : Nat) : Nat := nearest n (d * 2 ^ excess n d) * 2 ^ excess n d

/-! ## Operations -/

def ofNat (n : Nat) : Nat := round (n * one) 1

def mul (a b : Nat) : Nat := round (a * b) one

def div (a b : Nat) : Nat := round (a * one) b

/-- The integer part. -/
def toNat (a : Nat) : Nat := a / one

/-! ## Bounds -/

/-- At most 53 significant bits. -/
def IsFloat (f : Nat) : Prop := ∃ m j, m ≤ 2 ^ 53 ∧ f = m * 2 ^ j

variable {f : Nat}

theorem IsFloat.mul_two_pow (h : IsFloat f) (k : Nat) : IsFloat (f * 2 ^ k) := by
  obtain ⟨m, j, hm, rfl⟩ := h
  exact ⟨m, j + k, hm, by rw [pow_add, mul_assoc]⟩

variable {n : Nat}

theorem isFloat_of_le (h : n ≤ 2 ^ 53) : IsFloat n := ⟨n, 0, h, by simp⟩

variable {d g : Nat}

theorem nearest_le (hd : 0 < d) (h : n ≤ g * d) : nearest n d ≤ g := by
  have hdiv := Nat.div_add_mod n d
  have hmod := Nat.mod_lt n hd
  have hle : n / d ≤ g := Nat.div_le_of_le_mul (by rwa [mul_comm])
  rcases hle.eq_or_lt with heq | hlt
  · -- the quotient is `g` itself, so nothing is left over
    have hrest : n % d = 0 := by
      rw [heq, mul_comm] at hdiv
      omega
    rw [nearest, hrest, if_pos (by simpa using hd), heq]
  · unfold nearest
    split_ifs <;> omega

/-- If `k` bits are cut off, a float that is not smaller has none of them. -/
theorem IsFloat.dvd (hf : IsFloat f) (h : n ≤ f * d) : 2 ^ excess n d ∣ f := by
  obtain ⟨m, j, hm, rfl⟩ := hf
  by_cases hj : excess n d ≤ j
  · exact Dvd.dvd.mul_left (pow_dvd_pow 2 hj) m
  -- the quotient is at least `2 ^ (52 + excess)`, and the float at most `2 ^ (53 + j)`
  have hlog : (n / d).log2 = 52 + excess n d := by
    unfold excess at hj ⊢
    omega
  have hne : n / d ≠ 0 := by
    intro h0
    rw [h0, Nat.log2_zero] at hlog
    omega
  have hlow : 2 ^ (52 + excess n d) ≤ m * 2 ^ j := by
    rw [← hlog]
    exact (Nat.log2_self_le hne).trans (Nat.div_le_of_le_mul (by rwa [mul_comm]))
  have hhigh : m * 2 ^ j ≤ 2 ^ (53 + j) := by
    rw [pow_add]
    exact Nat.mul_le_mul_right _ hm
  have hexp : 52 + excess n d ≤ 53 + j := (Nat.pow_le_pow_iff_right (by decide)).1 (hlow.trans hhigh)
  have heq : m * 2 ^ j = 2 ^ (53 + j) := by
    refine le_antisymm hhigh ?_
    rwa [show 52 + excess n d = 53 + j by omega] at hlow
  rw [heq]
  exact pow_dvd_pow 2 (by omega)

theorem round_le (hf : IsFloat f) (hd : 0 < d) (h : n ≤ f * d) : round n d ≤ f := by
  obtain ⟨g, hg⟩ := hf.dvd h
  have hnearest : nearest n (d * 2 ^ excess n d) ≤ g := by
    refine nearest_le (Nat.mul_pos hd (Nat.two_pow_pos _)) (h.trans_eq ?_)
    rw [hg]
    ring
  calc round n d ≤ g * 2 ^ excess n d := Nat.mul_le_mul_right _ hnearest
    _ = f := by rw [hg, mul_comm]

/-! Each operation keeps a bound that is a `float64`. -/

theorem IsFloat.mul_one (hf : IsFloat f) : IsFloat (f * one) := hf.mul_two_pow _

theorem ofNat_le (hf : IsFloat f) (h : n ≤ f) : ofNat n ≤ f * one :=
  round_le hf.mul_one Nat.one_pos (by rw [Nat.mul_one]; exact Nat.mul_le_mul_right _ h)

variable {a : Nat}

theorem mul_le {b : Nat} (hfg : IsFloat (f * g)) (ha : a ≤ f * one) (hb : b ≤ g * one) :
    mul a b ≤ f * g * one := by
  refine round_le hfg.mul_one one_pos ((Nat.mul_le_mul ha hb).trans_eq ?_)
  ring

theorem div_le (hf : IsFloat f) (hg : 0 < g) (ha : a ≤ f * g * one) :
    div a (g * one) ≤ f * one := by
  refine round_le hf.mul_one (Nat.mul_pos hg one_pos) ((Nat.mul_le_mul_right _ ha).trans_eq ?_)
  ring

theorem toNat_le (h : a ≤ f * one) : toNat a ≤ f :=
  Nat.div_le_of_le_mul (by rwa [mul_comm])

end KleverGo.Float64
