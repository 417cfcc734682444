import Mathlib

/-!
# Maps without an order

A map of the source that is ranged over in no particular order, and whose entries no loop counts on
one after the other, is a `Finmap`: two maps are equal as soon as their lookups are.  A range loop
that touches the entry of its own key only is one of five operations: `mapWithKey` rewrites every
entry, `mergeWith` brings the entries of one map into another, `setAll` gives the keys of a set one
value, `filterValues` removes entries, and `filterMapWithKey` rewrites some and removes the others.
A loop whose order might matter goes through a list that `Enumerates` the map.
-/

set_option autoImplicit false

namespace Finmap

variable {κ ν μ : Type} [DecidableEq κ]

/-- Rewrite every entry, knowing its key. -/
def mapWithKey (f : κ → ν → μ) (m : Finmap fun _ : κ => ν) : Finmap fun _ : κ => μ :=
  keysLookupEquiv.symm ⟨(m.keys, fun k => (m.lookup k).map (f k)), fun k => by
    simp only [Option.isSome_map, lookup_isSome, mem_keys]⟩

@[simp]
theorem lookup_mapWithKey (f : κ → ν → μ) (m : Finmap fun _ : κ => ν) (k : κ) :
    (m.mapWithKey f).lookup k = (m.lookup k).map (f k) := by
  rw [mapWithKey, keysLookupEquiv_symm_apply_lookup]

theorem keys_mapWithKey (f : κ → ν → μ) (m : Finmap fun _ : κ => ν) :
    (m.mapWithKey f).keys = m.keys := by
  ext k
  rw [mem_keys, mem_keys, ← lookup_isSome, ← lookup_isSome, lookup_mapWithKey, Option.isSome_map]

/-- Bring every entry of `right` into `left`: `f` makes the new entry out of the one `left` had. -/
def mergeWith (f : Option ν → μ → ν) (left : Finmap fun _ : κ => ν)
    (right : Finmap fun _ : κ => μ) : Finmap fun _ : κ => ν :=
  keysLookupEquiv.symm ⟨(left.keys ∪ right.keys, fun k =>
    match right.lookup k with
    | some v => some (f (left.lookup k) v)
    | none => left.lookup k), fun k => by
      dsimp only
      rw [Finset.mem_union, mem_keys, mem_keys, ← lookup_isSome, ← lookup_isSome]
      cases right.lookup k <;> simp⟩

theorem lookup_mergeWith (f : Option ν → μ → ν) (left : Finmap fun _ : κ => ν)
    (right : Finmap fun _ : κ => μ) (k : κ) :
    (left.mergeWith f right).lookup k =
      match right.lookup k with
      | some v => some (f (left.lookup k) v)
      | none => left.lookup k := by
  rw [mergeWith, keysLookupEquiv_symm_apply_lookup]

variable (m : Finmap fun _ : κ => ν)

/-- Set every one of the given keys to one value. -/
def setAll (ks : Finset κ) (v : ν) : Finmap fun _ : κ => ν :=
  keysLookupEquiv.symm ⟨(m.keys ∪ ks, fun k => if k ∈ ks then some v else m.lookup k), fun k => by
    by_cases h : k ∈ ks <;> simp [h, mem_keys, lookup_isSome]⟩

@[simp]
theorem lookup_setAll (ks : Finset κ) (v : ν) (k : κ) :
    (m.setAll ks v).lookup k = if k ∈ ks then some v else m.lookup k := by
  rw [setAll, keysLookupEquiv_symm_apply_lookup]

@[simp]
theorem keys_setAll (ks : Finset κ) (v : ν) : (m.setAll ks v).keys = m.keys ∪ ks := by
  rw [setAll, keysLookupEquiv_symm_apply_keys]

variable (updates : Finmap fun _ : κ => Option ν)

/-- Write over a map: a key of `updates` gets the value it has there, or is removed. -/
def overwrite : Finmap fun _ : κ => ν :=
  keysLookupEquiv.symm ⟨((m.keys ∪ updates.keys).filter fun k =>
    ((updates.lookup k).getD (m.lookup k)).isSome, fun k => (updates.lookup k).getD (m.lookup k)),
    fun k => by
      dsimp only
      rw [Finset.mem_filter, Finset.mem_union, mem_keys, mem_keys, ← lookup_isSome, ← lookup_isSome]
      cases updates.lookup k <;> simp⟩

@[simp]
theorem lookup_overwrite (k : κ) :
    (m.overwrite updates).lookup k = (updates.lookup k).getD (m.lookup k) := by
  rw [overwrite, keysLookupEquiv_symm_apply_lookup]

/-- Remove every entry whose value is not wanted. -/
def filterValues (p : ν → Bool) (m : Finmap fun _ : κ => ν) : Finmap fun _ : κ => ν :=
  keysLookupEquiv.symm ⟨(m.keys.filter fun k => ((m.lookup k).filter p).isSome,
    fun k => (m.lookup k).filter p), fun k => by
      dsimp only
      rw [Finset.mem_filter, mem_keys, ← lookup_isSome]
      cases m.lookup k <;> simp⟩

@[simp]
theorem lookup_filterValues (p : ν → Bool) (m : Finmap fun _ : κ => ν) (k : κ) :
    (m.filterValues p).lookup k = (m.lookup k).filter p := by
  rw [filterValues, keysLookupEquiv_symm_apply_lookup]

/-- Rewrite or remove every entry, knowing its key. -/
def filterMapWithKey (f : κ → ν → Option μ) (m : Finmap fun _ : κ => ν) : Finmap fun _ : κ => μ :=
  keysLookupEquiv.symm ⟨(m.keys.filter fun k => ((m.lookup k).bind (f k)).isSome,
    fun k => (m.lookup k).bind (f k)), fun k => by
      dsimp only
      rw [Finset.mem_filter, mem_keys, ← lookup_isSome]
      cases m.lookup k <;> simp⟩

@[simp]
theorem lookup_filterMapWithKey (f : κ → ν → Option μ) (m : Finmap fun _ : κ => ν) (k : κ) :
    (m.filterMapWithKey f).lookup k = (m.lookup k).bind (f k) := by
  rw [filterMapWithKey, keysLookupEquiv_symm_apply_lookup]

/-- The list has every entry of the map once, in any order. -/
def Enumerates (entries : List (κ × ν)) (m : Finmap fun _ : κ => ν) : Prop :=
  (entries.map Prod.fst).Nodup ∧ ∀ k v, (k, v) ∈ entries ↔ m.lookup k = some v

/-- What a map has at the keys of `updates`. -/
def saved (updates : Finmap fun _ : κ => μ) : Finmap fun _ : κ => Option ν :=
  updates.mapWithKey fun k _ => m.lookup k

theorem overwrite_saved : (m.overwrite updates).overwrite (m.saved updates) = m := by
  refine ext_lookup fun k => ?_
  rw [lookup_overwrite, lookup_overwrite, saved, lookup_mapWithKey]
  cases updates.lookup k <;> rfl

theorem lookup_insert_ite (k k' : κ) (v : ν) :
    (m.insert k v).lookup k' = if k' = k then some v else m.lookup k' := by
  by_cases h : k' = k
  · subst h
    rw [lookup_insert, if_pos rfl]
  · rw [lookup_insert_of_ne m h, if_neg h]

theorem lookup_erase_ite (k k' : κ) :
    (m.erase k).lookup k' = if k' = k then none else m.lookup k' := by
  by_cases h : k' = k
  · subst h
    rw [lookup_erase, if_pos rfl]
  · rw [lookup_erase_ne h, if_neg h]

end Finmap
