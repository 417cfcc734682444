import KleverGo.Lib.UnorderedMap

/-!
# Totals over a map

The sum of a figure over the entries of a map, for the counters that are kept in step with one: an
insertion under a new key adds the figure of the entry, a removal takes it away.
-/

set_option autoImplicit false

namespace Finmap

variable {κ ν : Type} [DecidableEq κ]

/-- The sum of `f` over the entries of a map. -/
def total (f : ν → Nat) (m : Finmap fun _ : κ => ν) : Nat := ∑ k ∈ m.keys, (m.lookup k).elim 0 f

variable {m : Finmap fun _ : κ => ν} {f : ν → Nat} {k : κ} {v : ν}

@[simp]
theorem total_empty : (∅ : Finmap fun _ : κ => ν).total f = 0 := by
  simp [total]

theorem total_insert (h : m.lookup k = none) : (m.insert k v).total f = m.total f + f v := by
  have hk : k ∉ m.keys := by rw [mem_keys]; exact lookup_eq_none.1 h
  have hkeys : (m.insert k v).keys = m.keys.cons k hk := by ext; simp [mem_keys]
  rw [total, hkeys, Finset.sum_cons, lookup_insert, Nat.add_comm]
  refine congrArg (· + f v) (Finset.sum_congr rfl fun k' hk' => ?_)
  have hne : k' ≠ k := fun heq => hk (heq ▸ hk')
  rw [lookup_insert_of_ne m hne]

theorem total_erase (h : m.lookup k = some v) : (m.erase k).total f + f v = m.total f := by
  have hinsert : (m.erase k).insert k v = m := by
    refine ext_lookup fun k' => ?_
    rw [lookup_insert_ite, lookup_erase_ite]
    split
    · next heq => rw [heq, h]
    · rfl
  rw [← total_insert (lookup_erase k m), hinsert]

theorem card_keys : m.keys.card = m.total fun _ => 1 := by
  rw [Finset.card_eq_sum_ones, total]
  refine Finset.sum_congr rfl fun k hk => ?_
  obtain ⟨v, hv⟩ := Option.isSome_iff_exists.1 (lookup_isSome.2 (mem_keys.1 hk))
  rw [hv]
  rfl

end Finmap
