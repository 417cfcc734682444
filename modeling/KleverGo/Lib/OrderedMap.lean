import Mathlib

/-!
# Ordered maps with totals

A store whose entries are counted, added up or walked one after the other, up to the first error,
is one of Mathlib's association lists: `FMap` keeps the order of its entries, so that a loop over
them is a fold.  (A map that is only looked up and ranged over without an order is a `Finmap`, see
`UnorderedMap`.)  `FMap.sumBy f m` adds `f key value` over all entries:

* `sumBy_erase` / `sumBy_insert` say by how much one write moves the total;
* `sumBy_filter_add` splits it; `sumBy_congr` compares totals entry by entry.

`Rewrites f S` is the effect of a loop that updates the values of a set of keys.
-/

set_option autoImplicit false

namespace KleverGo

open AList List

/-- A finite map from keys to values, each key bound at most once. -/
abbrev FMap (κ : Type) (ν : Type) := AList (fun _ : κ => ν)

namespace FMap

variable {κ ν : Type} [DecidableEq κ]

/-! ## Lookup after a write -/

theorem lookup_insert_eq (m : FMap κ ν) (k k' : κ) (v : ν) :
    (m.insert k v).lookup k' = if k' = k then some v else m.lookup k' := by
  by_cases h : k' = k
  · subst h; simp
  · simp [h, lookup_insert_ne]

theorem lookup_erase_eq (m : FMap κ ν) (k k' : κ) :
    (m.erase k).lookup k' = if k' = k then none else m.lookup k' := by
  by_cases h : k' = k
  · subst h; simp
  · simp [h, lookup_erase_ne]

variable {k : κ} {v : ν}

theorem mem_entries_iff {m : FMap κ ν} :
    (⟨k, v⟩ : Sigma fun _ : κ => ν) ∈ m.entries ↔ m.lookup k = some v :=
  mem_lookup_iff.symm

theorem length_le_of_lookup {μ : Type} {m : FMap κ ν} {m' : FMap κ μ}
    (h : ∀ k, m'.lookup k = none → m.lookup k = none) : m.entries.length ≤ m'.entries.length := by
  have hsub : m.keys ⊆ m'.keys := by
    intro k hk
    by_contra hnot
    exact lookup_eq_none.1 (h k (lookup_eq_none.2 hnot)) hk
  have hle := (subperm_of_subset m.keys_nodup hsub).length_le
  simpa [AList.keys, List.keys] using hle

variable {a : κ}

theorem entries_of_key_eq {m : FMap κ ν} (h : ∀ k v, m.lookup k = some v → k = a) :
    m.entries = (m.lookup a).elim [] fun v => [⟨a, v⟩] := by
  have hkeys : ∀ e ∈ m.entries, e.1 = a := fun e he => h e.1 e.2 (mem_entries_iff.1 he)
  cases hl : m.lookup a with
  | none =>
    refine eq_nil_iff_forall_not_mem.2 fun e he => ?_
    have hmem := mem_entries_iff.1 he
    rw [hkeys e he, hl] at hmem
    cases hmem
  | some v =>
    have hv := mem_entries_iff.2 hl
    have hnodup := m.nodupKeys
    match he : m.entries with
    | [] =>
      rw [he] at hv
      cases hv
    | [e] =>
      rw [he, mem_singleton] at hv
      rw [← hv, Option.elim_some]
    | e1 :: e2 :: rest =>
      -- two entries would bind the same key
      rw [he] at hkeys hnodup
      have h1 := hkeys e1 (by simp)
      have h2 := hkeys e2 (by simp)
      simp only [nodupKeys_cons, keys_cons, mem_cons, not_or] at hnodup
      exact absurd (h1.trans h2.symm) hnodup.1.1

/-! ## Filtering -/

def filter (p : κ → ν → Bool) (m : FMap κ ν) : FMap κ ν where
  entries := m.entries.filter fun e => p e.1 e.2
  nodupKeys := m.nodupKeys.sublist filter_sublist

theorem lookup_filter (p : κ → ν → Bool) (m : FMap κ ν) (k : κ) :
    (m.filter p).lookup k = (m.lookup k).filter (p k) := by
  apply Option.ext
  intro v
  rw [← mem_entries_iff, Option.filter_eq_some_iff, ← mem_entries_iff]
  exact mem_filter

/-! ## Changing every value -/

section
omit [DecidableEq κ]
variable {μ : Type}

def mapValues (f : ν → μ) (m : FMap κ ν) : FMap κ μ where
  entries := m.entries.map (Sigma.map id fun _ => f)
  nodupKeys := NodupKeys.map₂ (fun _ => f) m.entries m.nodupKeys

theorem mapValues_mapValues {ξ : Type} (g : μ → ξ) (f : ν → μ) (m : FMap κ ν) :
    (m.mapValues f).mapValues g = m.mapValues (g ∘ f) := by
  apply ext
  simp [mapValues, Function.comp_def, Sigma.map]

end

section
variable {μ : Type}

theorem lookup_mapValues (f : ν → μ) (m : FMap κ ν) (k : κ) :
    (m.mapValues f).lookup k = (m.lookup k).map f :=
  dlookup_map₂ k

theorem mapValues_erase (f : ν → μ) (m : FMap κ ν) (k : κ) :
    mapValues f (m.erase k) = (m.mapValues f).erase k := by
  apply ext
  simp only [mapValues, erase, kerase, eraseP_map]
  rfl

theorem mapValues_insert (f : ν → μ) (m : FMap κ ν) (k : κ) (v : ν) :
    mapValues f (m.insert k v) = (m.mapValues f).insert k (f v) := by
  apply ext
  simp only [entries_insert, mapValues, map_cons, kerase, eraseP_map]
  rfl

end

/-! ## Rewriting a set of keys -/

/-- Going from `m` to `m'` applies `f` to the values of the keys in `S` and keeps the others. -/
structure Rewrites (f : ν → ν) (S : Set κ) (m m' : FMap κ ν) : Prop where
  inside : ∀ k ∈ S, m'.lookup k = (m.lookup k).map f
  outside : ∀ k, k ∉ S → m'.lookup k = m.lookup k

namespace Rewrites

variable {f : ν → ν} {S T : Set κ} {m m1 m2 : FMap κ ν}

theorem refl (f : ν → ν) (m : FMap κ ν) : Rewrites f ∅ m m :=
  ⟨fun _ h => absurd h (Set.notMem_empty _), fun _ _ => rfl⟩

variable {k : κ} {v : ν}

theorem of_insert (h : m.lookup k = some v) : Rewrites f {k} m (m.insert k (f v)) := by
  refine ⟨fun k' hk' => ?_, fun k' hk' => ?_⟩
  · rw [Set.mem_singleton_iff.1 hk', lookup_insert_eq, if_pos rfl, h, Option.map_some]
  · rw [lookup_insert_eq, if_neg (by simpa using hk')]

theorem trans (h1 : Rewrites f S m m1) (h2 : Rewrites f T m1 m2) (hdisj : Disjoint S T) :
    Rewrites f (S ∪ T) m m2 := by
  refine ⟨fun k hk => ?_, fun k hk => ?_⟩
  · by_cases hT : k ∈ T
    · rw [h2.inside k hT, h1.outside k (Set.disjoint_right.1 hdisj hT)]
    · rw [h2.outside k hT, h1.inside k (hk.resolve_right hT)]
  · rw [Set.mem_union, not_or] at hk
    rw [h2.outside k hk.2, h1.outside k hk.1]

theorem of_fixed (h : Rewrites f S m m1)
    (hT : ∀ k v, m.lookup k = some v → ¬ (k ∈ S ↔ k ∈ T) → f v = v) : Rewrites f T m m1 := by
  have hfixed : ∀ k, ¬ (k ∈ S ↔ k ∈ T) → (m.lookup k).map f = m.lookup k := by
    intro k hk
    cases hv : m.lookup k with
    | none => rfl
    | some v => rw [Option.map_some, hT k v hv hk]
  refine ⟨fun k hk => ?_, fun k hk => ?_⟩
  · by_cases hS : k ∈ S
    · exact h.inside k hS
    · rw [h.outside k hS, hfixed k fun hiff => hS (hiff.2 hk)]
  · by_cases hS : k ∈ S
    · rw [h.inside k hS, hfixed k fun hiff => hk (hiff.1 hS)]
    · exact h.outside k hS

/-- A value that does not change need not be written. -/
theorem singleton (h : m.lookup k = some v) (hv : f v = v) : Rewrites f {k} m m := by
  refine ⟨fun k' hk' => ?_, fun _ _ => rfl⟩
  rw [Set.mem_singleton_iff.1 hk', h, Option.map_some, hv]

theorem lookup_eq_none_iff (h : Rewrites f S m m1) (k : κ) :
    m1.lookup k = none ↔ m.lookup k = none := by
  by_cases hS : k ∈ S
  · rw [h.inside k hS, Option.map_eq_none_iff]
  · rw [h.outside k hS]

theorem lookup_eq (h1 : Rewrites f S m m1) (h2 : Rewrites f S m m2) (k : κ) :
    m1.lookup k = m2.lookup k := by
  by_cases hS : k ∈ S
  · rw [h1.inside k hS, h2.inside k hS]
  · rw [h1.outside k hS, h2.outside k hS]

end Rewrites

/-! ## Totals -/

variable {M : Type} [AddCommMonoid M]

variable (f : κ → ν → M)

/-- The sum of `f key value` over all entries. -/
def sumBy (m : FMap κ ν) : M :=
  (m.entries.map fun e => f e.1 e.2).sum

omit [DecidableEq κ] in
@[simp] theorem sumBy_empty : sumBy f (∅ : FMap κ ν) = 0 := rfl

private theorem sum_kerase (k : κ) :
    ∀ l : List (Sigma fun _ : κ => ν), l.NodupKeys →
      ((l.kerase k).map fun e => f e.1 e.2).sum + (l.dlookup k).elim 0 (f k) =
        (l.map fun e => f e.1 e.2).sum
  | [], _ => by simp
  | e :: l, h => by
    obtain ⟨a, b⟩ := e
    rw [nodupKeys_cons] at h
    by_cases hk : k = a
    · subst hk
      simp [kerase_cons_eq, add_comm]
    · rw [kerase_cons_ne (by exact hk), dlookup_cons_ne _ _ hk]
      simp only [map_cons, sum_cons, add_assoc]
      rw [sum_kerase k l h.2]

theorem sumBy_erase (m : FMap κ ν) (k : κ) :
    sumBy f (m.erase k) + (m.lookup k).elim 0 (f k) = sumBy f m :=
  sum_kerase f k m.entries m.nodupKeys

/-- Writing a key exchanges its old entry for the new one in the total. -/
theorem sumBy_insert (m : FMap κ ν) (k : κ) (v : ν) :
    sumBy f (m.insert k v) + (m.lookup k).elim 0 (f k) = sumBy f m + f k v := by
  have h := sumBy_erase f m k
  have hi : sumBy f (m.insert k v) = f k v + sumBy f (m.erase k) := by
    simp [sumBy, AList.insert, AList.erase, kinsert]
  rw [hi, ← h]
  ac_rfl

theorem sumBy_insert_of_notMem {m : FMap κ ν} (v : ν) (h : m.lookup k = none) :
    sumBy f (m.insert k v) = sumBy f m + f k v := by
  simpa [h] using sumBy_insert f m k v

variable {G : Type}

theorem sumBy_write [AddCommGroup G] (f : κ → ν → G) (m : FMap κ ν) (k : κ) (v : ν) :
    sumBy f (m.insert k v) = sumBy f m + (f k v - (m.lookup k).elim 0 (f k)) := by
  rw [← add_sub_assoc, eq_sub_iff_add_eq]
  exact sumBy_insert f m k v

theorem sumBy_congr {f g : κ → ν → M} {m : FMap κ ν}
    (h : ∀ k v, m.lookup k = some v → f k v = g k v) : sumBy f m = sumBy g m := by
  unfold sumBy
  congr 1
  apply map_congr_left
  rintro ⟨k, v⟩ he
  exact h k v (mem_entries_iff.1 he)

omit [DecidableEq κ] in
/-- A total splits into the entries that satisfy `p` and the others. -/
theorem sumBy_filter_add (p : κ → ν → Bool) (m : FMap κ ν) :
    sumBy f (m.filter p) + sumBy f (m.filter fun k v => !p k v) = sumBy f m := by
  simp only [sumBy, filter]
  induction m.entries with
  | nil => simp
  | cons e rest ih =>
    cases h : p e.1 e.2
    · simp only [h, Bool.not_false, filter_cons, map_cons, sum_cons, ← ih,
        Bool.false_eq_true, if_false, if_true]
      exact add_left_comm _ _ _
    · simp only [h, Bool.not_true, filter_cons, map_cons, sum_cons, ← ih,
        Bool.false_eq_true, if_false, if_true]
      exact add_assoc _ _ _

omit [DecidableEq κ] in
theorem map_sumBy {N : Type} [AddCommMonoid N] (g : M →+ N) (f : κ → ν → M) (m : FMap κ ν) :
    g (sumBy f m) = sumBy (fun k v => g (f k v)) m := by
  unfold sumBy
  rw [map_list_sum, map_map]
  rfl

theorem sumBy_update [AddCommGroup G] {f g : κ → ν → G} {m : FMap κ ν} (ha : m.lookup a = some v)
    (h : ∀ k w, m.lookup k = some w → k ≠ a → g k w = f k w) :
    sumBy g m = sumBy f m + (g a v - f a v) := by
  have hf := sumBy_erase f m a
  have hg := sumBy_erase g m a
  rw [ha, Option.elim_some] at hf hg
  have hrest : sumBy g (m.erase a) = sumBy f (m.erase a) := by
    refine sumBy_congr fun k w hk => ?_
    rw [lookup_erase_eq] at hk
    split at hk
    · cases hk
    · rename_i hne
      exact h k w hk hne
  rw [← hf, ← hg, hrest, add_assoc, add_sub_cancel]

theorem sumBy_eq_zero {f : κ → ν → M} {m : FMap κ ν}
    (h : ∀ k v, m.lookup k = some v → f k v = 0) : sumBy f m = 0 := by
  rw [sumBy_congr h]
  simp [sumBy]

omit [DecidableEq κ] in
theorem sumBy_add (f g : κ → ν → M) (m : FMap κ ν) :
    sumBy (fun k v => f k v + g k v) m = sumBy f m + sumBy g m :=
  sum_map_add

/-! ## Totals of integers -/

theorem sumBy_nonneg {f : κ → ν → Int} {m : FMap κ ν}
    (h : ∀ k v, m.lookup k = some v → 0 ≤ f k v) : 0 ≤ sumBy f m := by
  refine sum_nonneg fun n hn => ?_
  obtain ⟨⟨k, v⟩, he, rfl⟩ := mem_map.1 hn
  exact h k v (mem_entries_iff.1 he)

theorem sumBy_mono {f g : κ → ν → Int} {m : FMap κ ν}
    (h : ∀ k v, m.lookup k = some v → f k v ≤ g k v) : sumBy f m ≤ sumBy g m := by
  refine sum_le_sum fun e he => ?_
  exact h e.1 e.2 (mem_entries_iff.1 he)

theorem le_sumBy {f : κ → ν → Int} {m : FMap κ ν} (h : ∀ k v, m.lookup k = some v → 0 ≤ f k v)
    (hk : m.lookup k = some v) : f k v ≤ sumBy f m := by
  have hsum := sumBy_erase f m k
  have hrest : 0 ≤ sumBy f (m.erase k) := by
    refine sumBy_nonneg fun k' v' hk' => h k' v' ?_
    rw [lookup_erase_eq] at hk'
    split at hk'
    · cases hk'
    · exact hk'
  rw [hk, Option.elim_some] at hsum
  omega

/-- A total is bounded by that of another map if each entry is bounded by an entry of the other,
different ones by different ones. -/
theorem sumBy_le_sumBy {κ' ν' : Type} [DecidableEq κ'] {f : κ → ν → Int} {g : κ' → ν' → Int}
    {m : FMap κ ν} {m' : FMap κ' ν'} (code : κ' → κ) (h : ∀ k v, m.lookup k = some v →
      ∃ k' v', k = code k' ∧ m'.lookup k' = some v' ∧ f k v ≤ g k' v')
    (hg : ∀ k' v', m'.lookup k' = some v' → 0 ≤ g k' v') : sumBy f m ≤ sumBy g m' := by
  have hlist : ∀ (l : List (Sigma fun _ : κ => ν)) (m' : FMap κ' ν'), l.NodupKeys →
      (∀ e ∈ l, ∃ k' v', e.1 = code k' ∧ m'.lookup k' = some v' ∧ f e.1 e.2 ≤ g k' v') →
      (∀ k' v', m'.lookup k' = some v' → 0 ≤ g k' v') →
      (l.map fun e => f e.1 e.2).sum ≤ sumBy g m' := by
    intro l
    induction l with
    | nil => exact fun m' _ _ hg => sumBy_nonneg hg
    | cons e rest ih =>
      intro m' hnodup hl hg
      rw [nodupKeys_cons] at hnodup
      obtain ⟨k', v', hcode, hk', hle⟩ := hl e mem_cons_self
      -- the entry that bounds the first one is not needed for the others
      have hrest : (rest.map fun e => f e.1 e.2).sum ≤ sumBy g (m'.erase k') := by
        refine ih _ hnodup.2 (fun e' he' => ?_) fun k1 v1 hk1 => ?_
        · obtain ⟨k1, v1, hcode1, hk1, hle1⟩ := hl e' (mem_cons_of_mem _ he')
          refine ⟨k1, v1, hcode1, ?_, hle1⟩
          rw [lookup_erase_eq, if_neg, hk1]
          rintro rfl
          exact hnodup.1 (hcode.trans hcode1.symm ▸ mem_map_of_mem he')
        · rw [lookup_erase_eq] at hk1
          split at hk1
          · cases hk1
          · exact hg k1 v1 hk1
      have hsum := sumBy_erase g m' k'
      rw [hk', Option.elim_some] at hsum
      rw [map_cons, sum_cons]
      omega
  exact hlist m.entries m' m.nodupKeys (fun e he => h e.1 e.2 (mem_entries_iff.1 he)) hg

end FMap

end KleverGo
