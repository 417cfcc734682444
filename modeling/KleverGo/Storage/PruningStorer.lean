import KleverGo.Core.Bytes
import KleverGo.Lib.UnorderedMap

/-!
# Removals from the pruning storer

`storage/pruning/pruningStorer.go`: the values of the last epochs are in one database for each epoch,
newest first, behind a cache.  A database that is closed refuses every call; one that is open removes
a key whether it holds it or not.

* `removed_stays_absent_iff`: **a key that was removed is found no more if and only if no other open
  database holds it**, as `Remove` stops at the first one.
-/

namespace KleverGo.Storage

open List Finmap

/-- `persisterData`, with what its database holds. -/
structure Persister where
  content : Finmap fun _ : Bytes => Bytes
  isClosed : Bool := false

namespace Persister

def get (key : Bytes) (p : Persister) : Option Bytes :=
  if p.isClosed then none else p.content.lookup key

/-- `Put`; none is an error.  `PutInEpoch` opens a closed database for the write. -/
def put (key data : Bytes) (opens : Bool) (p : Persister) : Option Persister :=
  if p.isClosed && !opens then none else some { p with content := p.content.insert key data }

def remove (key : Bytes) (p : Persister) : Option Persister :=
  if p.isClosed then none else some { p with content := p.content.erase key }

end Persister

/-- `PruningStorer`; without a bloom filter every key may be contained. -/
structure PruningStorer where
  cacher : Finmap fun _ : Bytes => Bytes
  activePersisters : List Persister
  numOfActivePersisters : Nat
  mayContain : Bytes → Bool := fun _ => true

namespace PruningStorer

/-- `Get`, which caches what it finds. -/
def get (key : Bytes) (ps : PruningStorer) : Option Bytes × PruningStorer :=
  match ps.cacher.lookup key with
  | some v => (some v, ps)
  | none =>
    if ps.mayContain key then
      match (ps.activePersisters.take ps.numOfActivePersisters).findSome? (·.get key) with
      | some v => (some v, { ps with cacher := ps.cacher.insert key v })
      | none => (none, ps)
    else (none, ps)

def searchFirst (key : Bytes) (ps : PruningStorer) : Option Bytes :=
  (ps.cacher.lookup key).or (ps.activePersisters.findSome? (·.get key))

def has (key : Bytes) (ps : PruningStorer) : Bool :=
  (ps.cacher.lookup key).isSome ||
    (ps.mayContain key && ps.activePersisters.any fun p => (p.get key).isSome)

/-- The loop of `Remove`; none if every removal has failed. -/
def removeFirst (key : Bytes) : List Persister → Option (List Persister)
  | [] => none
  | pd :: rest =>
    match pd.remove key with
    | some pd => some (pd :: rest)
    | none => (removeFirst key rest).map (pd :: ·)

/-- `Remove`, and whether it returned `nil`. -/
def remove (key : Bytes) (ps : PruningStorer) : Bool × PruningStorer :=
  let ps := { ps with cacher := ps.cacher.erase key }
  match removeFirst key ps.activePersisters with
  | some activePersisters => (true, { ps with activePersisters })
  | none => (ps.activePersisters = [], ps)

/-- `Put` and `PutInEpoch`, where `idx` is the database of the epoch: if it is not an active one, only
the cache changes here. -/
def put (key data : Bytes) (idx : Nat) (opens : Bool) (ps : PruningStorer) : PruningStorer :=
  match (ps.activePersisters[idx]?).map (·.put key data opens) with
  | none => { ps with cacher := ps.cacher.insert key data }
  | some none => { ps with cacher := ps.cacher.erase key }
  | some (some p) =>
    { ps with
      cacher := ps.cacher.insert key data
      activePersisters := ps.activePersisters.set idx p
      mayContain := fun k => k = key || ps.mayContain k }

end PruningStorer

/-- The calls that change a storer, and the eviction of a key from the cache. -/
inductive StorerOp where
  | get (key : Bytes)
  | put (key data : Bytes) (idx : Nat) (opens : Bool)
  | remove (key : Bytes)
  | evict (key : Bytes)

namespace StorerOp

def exec (ps : PruningStorer) : StorerOp → PruningStorer
  | get key => (ps.get key).2
  | put key data idx opens => ps.put key data idx opens
  | remove key => (ps.remove key).2
  | evict key => { ps with cacher := ps.cacher.erase key }

def Puts (key : Bytes) : StorerOp → Prop
  | put k _ _ _ => k = key
  | _ => False

end StorerOp

namespace PruningStorer

/-- No lookup finds the key. -/
def NotFound (key : Bytes) (ps : PruningStorer) : Prop :=
  (ps.get key).1 = none ∧ ps.searchFirst key = none ∧ ps.has key = false

/-- The key is nowhere. -/
def Absent (key : Bytes) (ps : PruningStorer) : Prop :=
  ps.cacher.lookup key = none ∧ ∀ p ∈ ps.activePersisters, p.get key = none

variable {key : Bytes} {ps : PruningStorer} {persisters persisters' : List Persister}

theorem searchFirst_eq_none : ps.searchFirst key = none ↔ Absent key ps := by
  rw [searchFirst, Option.or_eq_none_iff, findSome?_eq_none_iff, Absent]

theorem Absent.get_eq (h : Absent key ps) : ps.get key = (none, ps) := by
  have hall : (ps.activePersisters.take ps.numOfActivePersisters).findSome? (·.get key) = none :=
    findSome?_eq_none_iff.2 fun p hp => h.2 p (mem_of_mem_take hp)
  rw [get, h.1]
  rw [hall]
  exact ite_self _

theorem notFound_iff : NotFound key ps ↔ Absent key ps := by
  refine ⟨fun h => searchFirst_eq_none.1 h.2.1,
    fun h => ⟨by rw [h.get_eq], searchFirst_eq_none.2 h, ?_⟩⟩
  have hany : (ps.activePersisters.any fun p => (p.get key).isSome) = false :=
    any_eq_false.2 fun p hp => by rw [h.2 p hp]; decide
  rw [has, h.1, hany]
  simp

theorem Persister.get_of_remove {p p' : Persister} {k : Bytes} (hp : p.get key = none)
    (h : p.remove k = some p') : p'.get key = none := by
  unfold Persister.remove at h
  split at h
  · cases h
  · cases h
    simp_all [Persister.get, lookup_erase_ite]

theorem removeFirst_absent {k : Bytes} (hall : ∀ p ∈ persisters, p.get key = none)
    (h : removeFirst k persisters = some persisters') : ∀ p ∈ persisters', p.get key = none := by
  induction persisters generalizing persisters' with
  | nil => cases h
  | cons p rest ih =>
    rw [forall_mem_cons] at hall
    unfold removeFirst at h
    split at h
    · rename_i p' hp'
      cases h
      exact forall_mem_cons.2 ⟨Persister.get_of_remove hall.1 hp', hall.2⟩
    · obtain ⟨rest', hrest, rfl⟩ := Option.map_eq_some_iff.1 h
      exact forall_mem_cons.2 ⟨hall.1, ih hall.2 hrest⟩

theorem put_absent {k data : Bytes} {idx : Nat} {opens : Bool} (h : Absent key ps) (hk : k ≠ key) :
    Absent key (ps.put k data idx opens) := by
  have hcache : (ps.cacher.insert k data).lookup key = none := by
    simp [hk.symm, h.1]
  unfold put
  split
  · exact ⟨hcache, h.2⟩
  · exact ⟨by simp [lookup_erase_ite, h.1], h.2⟩
  rename_i p' hp'
  obtain ⟨p, hidx, hput⟩ := Option.map_eq_some_iff.1 hp'
  refine ⟨hcache, fun q hq => ?_⟩
  obtain hq | rfl := mem_or_eq_of_mem_set hq
  · exact h.2 q hq
  have hp := h.2 p (mem_of_getElem? hidx)
  unfold Persister.put at hput
  split at hput
  · cases hput
  · cases hput
    simpa [Persister.get, lookup_insert_ite, hk.symm] using hp

/-- No call but a put brings a key back. -/
theorem Absent.exec {op : StorerOp} (h : Absent key ps) (hop : ¬ op.Puts key) :
    Absent key (op.exec ps) := by
  have herase : ∀ k, (ps.cacher.erase k).lookup key = none := by
    simp [lookup_erase_ite, h.1]
  cases op with
  | get k =>
    by_cases hk : k = key
    · rw [hk, StorerOp.exec, h.get_eq]
      exact h
    change Absent key (ps.get k).2
    unfold get
    split
    · exact h
    split_ifs
    · split
      · exact ⟨by simp [Ne.symm hk, h.1], h.2⟩
      · exact h
    · exact h
  | put k data idx opens => exact put_absent h hop
  | remove k =>
    change Absent key (ps.remove k).2
    unfold remove
    dsimp only
    split
    · rename_i hfirst
      exact ⟨herase k, removeFirst_absent h.2 hfirst⟩
    · exact ⟨herase k, h.2⟩
  | evict k => exact ⟨herase k, h.2⟩

theorem Absent.run {ops : List StorerOp} (h : Absent key ps) (hops : ∀ op ∈ ops, ¬ op.Puts key) :
    Absent key (ops.foldl StorerOp.exec ps) := by
  induction ops generalizing ps with
  | nil => exact h
  | cons op ops ih =>
    rw [forall_mem_cons] at hops
    exact ih (h.exec hops.1) hops.2

/-- The databases that are open after the first one of them. -/
def laterOpen (persisters : List Persister) : List Persister :=
  (persisters.filter (!·.isClosed)).tail

-- The loop ends at the first open database, which is the only one it has removed the key from.
theorem removeFirst_absent_iff (h : removeFirst key persisters = some persisters') :
    (∀ p ∈ persisters', p.get key = none) ↔
      ∀ p ∈ laterOpen persisters, p.content.lookup key = none := by
  induction persisters generalizing persisters' with
  | nil => cases h
  | cons p rest ih =>
    unfold removeFirst Persister.remove at h
    by_cases hp : p.isClosed
    · rw [if_pos hp] at h
      obtain ⟨rest', hrest, rfl⟩ := Option.map_eq_some_iff.1 h
      rw [forall_mem_cons, ih hrest, laterOpen, laterOpen, filter_cons_of_neg (by simp [hp])]
      simp [Persister.get, hp]
    rw [if_neg hp] at h
    cases h
    rw [forall_mem_cons, laterOpen, filter_cons_of_pos (by simp [hp])]
    simp only [Persister.get, lookup_erase_ite, tail_cons, mem_filter]
    grind

theorem remove_absent_iff (hnil : (ps.remove key).1 = true) :
    Absent key (ps.remove key).2 ↔
      ∀ p ∈ laterOpen ps.activePersisters, p.content.lookup key = none := by
  have hcache : (ps.cacher.erase key).lookup key = none := by simp
  unfold remove at hnil ⊢
  dsimp only at hnil ⊢
  split at hnil
  · rename_i hfirst
    exact (and_iff_right hcache).trans (removeFirst_absent_iff hfirst)
  · have hempty : ps.activePersisters = [] := of_decide_eq_true hnil
    simp [Absent, hempty, laterOpen]

/-- **A removed key is found no more, whatever is done but a put of it, if and only if no open
database after the first one holds it.** -/
theorem removed_stays_absent_iff (key : Bytes) (ps : PruningStorer)
    (hnil : (ps.remove key).1 = true) :
    (∀ ops : List StorerOp, (∀ op ∈ ops, ¬ op.Puts key) →
        NotFound key (ops.foldl StorerOp.exec (ps.remove key).2)) ↔
      ∀ p ∈ laterOpen ps.activePersisters, p.content.lookup key = none := by
  rw [← remove_absent_iff hnil]
  refine ⟨fun h => ?_, fun h ops hops => notFound_iff.2 (h.run hops)⟩
  exact notFound_iff.1 (h [] fun op hop => nomatch hop)

/-- A nonce that was indexed in the epoch before. -/
def rolledBack : PruningStorer where
  cacher := ∅
  activePersisters := [⟨∅, false⟩, ⟨Finmap.singleton [7] [1], false⟩]
  numOfActivePersisters := 2

theorem removed_stays_absent_iff_rolledBack :
    (rolledBack.remove [7]).1 = true ∧
      ¬ ∀ ops : List StorerOp, (∀ op ∈ ops, ¬ op.Puts [7]) →
        NotFound [7] (ops.foldl StorerOp.exec (rolledBack.remove [7]).2) :=
  ⟨rfl, fun h => absurd ((removed_stays_absent_iff [7] rolledBack rfl).1 h
    ⟨Finmap.singleton [7] [1], false⟩ (by simp [laterOpen, rolledBack])) (by decide)⟩

/-- **The removal of a nonce of the epoch before succeeds and leaves it there.** -/
theorem remove_leaves_older :
    (rolledBack.remove [7]).1 = true ∧ (rolledBack.remove [7]).2.has [7] = true ∧
      ((rolledBack.remove [7]).2.get [7]).1 = some [1] ∧
      (rolledBack.remove [7]).2.searchFirst [7] = some [1] := by
  decide +kernel

end PruningStorer

end KleverGo.Storage
