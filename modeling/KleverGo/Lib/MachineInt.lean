import KleverGo.Lib.OrderedMap

/-!
# Signed 64-bit amounts

Amounts are `Int64` and wrap around as in the source; ledgers are added up in `Int`.  The lemmas
say when a machine operation is exact: `toInt_add` after an overflow check that only looks at the
sign of the result, `toInt_sub` for amounts that are not negative, `toInt_sumBy` for a total that
is in range.
-/

set_option autoImplicit false

namespace KleverGo.Amount

variable {a : Int64}

theorem nonneg_iff : 0 ≤ a ↔ 0 ≤ a.toInt := by
  rw [Int64.le_iff_toInt_le, Int64.toInt_zero]

theorem pos_iff : 0 < a ↔ 0 < a.toInt := by
  rw [Int64.lt_iff_toInt_lt, Int64.toInt_zero]

theorem not_neg_iff : ¬ a < 0 ↔ 0 ≤ a.toInt := by
  rw [Int64.lt_iff_toInt_lt, Int64.toInt_zero, Int.not_lt]

theorem not_pos_iff : a ≤ 0 ↔ a.toInt ≤ 0 := by
  rw [Int64.le_iff_toInt_le, Int64.toInt_zero]

variable {b : Int64}

/-- Adding a non-negative amount is exact once the result is seen not to be negative. -/
theorem toInt_add (hb : 0 ≤ b.toInt) (h : 0 ≤ (a + b).toInt) :
    (a + b).toInt = a.toInt + b.toInt := by
  have ha := a.le_toInt
  have ha' := a.toInt_lt
  have hb' := b.toInt_lt
  rw [Int64.toInt_add, Int.bmod] at h ⊢
  omega

/-- Amounts that are not negative add exactly if the sum is in range. -/
theorem toInt_add_of_lt (ha : 0 ≤ a.toInt) (hb : 0 ≤ b.toInt) (h : a.toInt + b.toInt < 2 ^ 63) :
    (a + b).toInt = a.toInt + b.toInt := by
  rw [Int64.toInt_add, Int.bmod]
  omega

theorem toInt_sub (ha : 0 ≤ a.toInt) (hb : 0 ≤ b.toInt) : (a - b).toInt = a.toInt - b.toInt := by
  have ha' := a.toInt_lt
  have hb' := b.toInt_lt
  rw [Int64.toInt_sub, Int.bmod]
  omega

end KleverGo.Amount

namespace KleverGo

/-- Amounts add up as the source adds them, modulo `2 ^ 64`. -/
instance instAddCommGroupInt64 : AddCommGroup Int64 where
  add_assoc := Int64.add_assoc
  zero_add := Int64.zero_add
  add_zero := Int64.add_zero
  add_comm := Int64.add_comm
  neg_add_cancel := Int64.add_left_neg
  sub_eq_add_neg := Int64.sub_eq_add_neg
  nsmul := nsmulRec
  zsmul := zsmulRec

namespace Amount

/-- The amount of an integer, modulo `2 ^ 64`. -/
def ofIntHom : Int →+ Int64 where
  toFun := Int64.ofInt
  map_zero' := rfl
  map_add' := Int64.ofInt_add

theorem toInt_sumBy {κ ν : Type} {f : κ → ν → Int64} {m : FMap κ ν}
    (hlow : -2 ^ 63 ≤ m.sumBy fun k v => (f k v).toInt)
    (hhigh : (m.sumBy fun k v => (f k v).toInt) < 2 ^ 63) :
    (m.sumBy f).toInt = m.sumBy fun k v => (f k v).toInt := by
  have hhom := FMap.map_sumBy ofIntHom (fun k v => (f k v).toInt) m
  have hself : (m.sumBy fun k v => ofIntHom (f k v).toInt) = m.sumBy f := by
    simp only [ofIntHom, AddMonoidHom.coe_mk, ZeroHom.coe_mk, Int64.ofInt_toInt]
  rw [hself] at hhom
  rw [← hhom]
  exact Int64.toInt_ofInt_of_le hlow hhigh

end Amount

end KleverGo
