import KleverGo.Trie.PatriciaTrie
import KleverGo.Trie.Sync

/-!
# A synchronised trie is complete

The worklist may be extended, overwritten and deleted from in any order: what carries the argument
is that a node leaves it only when it is stored and all its children are on it.  So at every moment
the root and the children of every stored node that has left the worklist are again such nodes, or
on the worklist (`Covers`).  When the worklist is empty nothing reachable is missing.  Everything
that gets on the worklist is reachable from the root, so that its size is bounded by the trie's.

Principal results:

* `visit_covers`, `range_covers`, `repeatRange_covers`, `checkIfSynced_covers` — a turn, a range
  loop, a pass keep the invariant, whatever is intercepted and in whatever order;
* `startSyncing_complete` — **a run that returns `nil` has a complete database**, if fewer than
  `2^32` hashes are reachable;
* `startSyncing_truncated` — `2^32` pending nodes are counted as none.
-/

namespace KleverGo.Trie

open Finset Finmap Syncer

variable {δ : Type}

/-- The hashes that a full traversal from `root` comes to. -/
inductive Reachable (hasher : Hasher δ) (root : Bytes) : Bytes → Prop where
  | root : emptyTrie root = false → Reachable hasher root root
  | child {n : Collapsed δ} {i : Fin 17} : Reachable hasher root (hasher.compute n) →
      n.encodedChild i ≠ [] → Reachable hasher root (n.encodedChild i)

/-- The database holds every node reachable from `root`, each under its own hash. -/
def Complete (hasher : Hasher δ) (root : Bytes) (db : Finmap fun _ : Bytes => Collapsed δ) : Prop :=
  ∀ h, Reachable hasher root h → ∃ n, db.lookup h = some n ∧ hasher.compute n = h

/-- Every intercepted node is offered under the hash of its content. -/
def Environment.Honest (hasher : Hasher δ) (env : Environment δ) : Prop :=
  ∀ t h n, env.interceptedNodes t h = some (.node n) → hasher.compute n = h

/-- Every received node of the worklist is there under its own hash. -/
def WorkKeyed (hasher : Hasher δ) (m : Finmap fun _ : Bytes => TrieNodeInfo δ) : Prop :=
  ∀ h n, m.lookup h = some (.received n) → hasher.compute n = h

/-! ## The worklist -/

theorem addNewNode_keys (hasher : Hasher δ) (n : Collapsed δ)
    (m : Finmap fun _ : Bytes => TrieNodeInfo δ) :
    (addNewNode hasher n m).keys = insert (hasher.compute n) m.keys := by
  unfold addNewNode
  split
  · next h =>
    have hmem : hasher.compute n ∈ m.keys := by
      rw [mem_keys, ← lookup_isSome, h]; rfl
    rw [insert_eq_of_mem hmem]
  · ext h
    rw [mem_keys, Finmap.mem_insert, Finset.mem_insert, mem_keys]

theorem addNew_keys (hasher : Hasher δ) (nodes : List (Collapsed δ))
    (m : Finmap fun _ : Bytes => TrieNodeInfo δ) :
    (addNew hasher nodes m).keys = (nodes.map hasher.compute).toFinset ∪ m.keys := by
  induction nodes generalizing m with
  | nil => simp [addNew]
  | cons n rest ih =>
    have step : addNew hasher (n :: rest) m = addNew hasher rest (addNewNode hasher n m) := rfl
    rw [step, ih, addNewNode_keys, List.map_cons, List.toFinset_cons, Finset.insert_union,
      union_insert]

variable {m : Finmap fun _ : Bytes => TrieNodeInfo δ}

variable {hasher : Hasher δ}

theorem WorkKeyed.addNewNode (h : WorkKeyed hasher m) (n : Collapsed δ) :
    WorkKeyed hasher (addNewNode hasher n m) := by
  unfold Trie.addNewNode
  split
  · exact h
  intro hash k hk
  rw [lookup_insert_ite] at hk
  split at hk
  · next heq =>
    cases hk
    exact heq.symm
  · exact h hash k hk

theorem WorkKeyed.addNew (h : WorkKeyed hasher m) (nodes : List (Collapsed δ)) :
    WorkKeyed hasher (addNew hasher nodes m) := by
  induction nodes generalizing m with
  | nil => exact h
  | cons n rest ih => exact ih (h.addNewNode n)

theorem WorkKeyed.erase (h : WorkKeyed hasher m) (hash : Bytes) :
    WorkKeyed hasher (m.erase hash) := by
  intro k n hk
  rw [lookup_erase_ite] at hk
  split at hk
  · cases hk
  · exact h k n hk

theorem WorkKeyed.setAll (h : WorkKeyed hasher m) (missing : Finset Bytes) :
    WorkKeyed hasher (m.setAll missing .missing) := by
  intro k n hk
  rw [lookup_setAll] at hk
  split at hk
  · cases hk
  · exact h k n hk

/-! ## The children of a node -/

section Children

variable {hasher : Hasher δ} {env : Environment δ} {s : Syncer δ}

variable {t : Nat} {n : Collapsed δ}

theorem getNode_keyed (honest : env.Honest hasher) (hdb : WellKeyed hasher s.db)
    (hwork : WorkKeyed hasher s.nodesForTrie) {hash : Bytes} (h : s.getNode env t hash = .ok n) :
    hasher.compute n = hash := by
  unfold getNode at h
  split at h
  · next hpending =>
    cases h
    exact hwork _ _ hpending
  split at h
  · next hcached =>
    cases h
    exact honest _ _ _ hcached
  · cases h
  split at h
  · cases h
  next hstored =>
  split at h
  · cases h
  · cases h
    exact hdb _ _ hstored

variable {i : Fin 17}

/-- Every attached child has the hash that the node stores for it. -/
theorem loaded_keyed (honest : env.Honest hasher) (hdb : WellKeyed hasher s.db)
    (hwork : WorkKeyed hasher s.nodesForTrie) {child : Collapsed δ}
    (h : loaded (s.fetched env t n) i = some child) : hasher.compute child = n.encodedChild i := by
  unfold loaded fetched at h
  by_cases hnone : n.encodedChild i = []
  · simp [hnone] at h
  rw [if_neg hnone] at h
  split at h
  · next hget =>
    cases h
    exact getNode_keyed honest hdb hwork (Option.some.inj hget)
  · cases h

theorem mem_existingChildren (hmissing : missingChildren n (s.fetched env t n) = [])
    (hchild : n.encodedChild i ≠ []) :
    ∃ child ∈ existingChildren (s.fetched env t n), loaded (s.fetched env t n) i = some child := by
  have hi := List.filterMap_eq_nil_iff.1 hmissing i (List.mem_finRange i)
  cases hget : s.getNode env (t + i) (n.encodedChild i) with
  | error e => simp [fetched, hchild, hget] at hi
  | ok child =>
    have hloaded : loaded (s.fetched env t n) i = some child := by
      simp [loaded, fetched, hchild, hget]
    exact ⟨child, List.mem_filterMap.2 ⟨i, List.mem_finRange i, hloaded⟩, hloaded⟩

theorem getCollapsed_eq_self {children : Fin 17 → Option (Collapsed δ)}
    (h : ∀ i child, children i = some child → hasher.compute child = n.encodedChild i) :
    getCollapsed hasher children n = n := by
  cases n with
  | leaf key value => rfl
  | extension key child =>
    cases h0 : children 0 with
    | none => simp [getCollapsed, h0]
    | some c => simpa [getCollapsed, h0, Collapsed.encodedChild] using h 0 c h0
  | branch encoded =>
    have slots : (fun i => (children i).elim (encoded i) hasher.compute) = encoded := by
      funext i
      cases hi : children i with
      | none => rfl
      | some c => exact h i c hi
    rw [getCollapsed, slots]

section
variable {root : Bytes} (hreach : Reachable hasher root (hasher.compute n))
include hreach

theorem reachable_existing (honest : env.Honest hasher) (hdb : WellKeyed hasher s.db)
    (hwork : WorkKeyed hasher s.nodesForTrie) {child : Collapsed δ}
    (h : child ∈ existingChildren (s.fetched env t n)) :
    Reachable hasher root (hasher.compute child) := by
  obtain ⟨i, -, hloaded⟩ := List.mem_filterMap.1 h
  have heq := loaded_keyed honest hdb hwork hloaded
  have hne : n.encodedChild i ≠ [] := heq ▸ hasher.compute_ne_nil child
  exact heq ▸ hreach.child hne

theorem reachable_missing {h : Bytes} (hmem : h ∈ missingChildren n (s.fetched env t n)) :
    Reachable hasher root h := by
  obtain ⟨i, -, hi⟩ := List.mem_filterMap.1 hmem
  have hne : n.encodedChild i ≠ [] := by
    intro hnone
    simp [fetched, hnone] at hi
  split at hi
  · cases hi
    exact hreach.child hne
  · cases hi

end

theorem mem_addMissing {cap : Nat} (hashes : List Bytes) {missing : Finset Bytes} {h : Bytes}
    (hmem : h ∈ (addMissing cap hashes missing).1) : h ∈ hashes ∨ h ∈ missing := by
  induction hashes generalizing missing with
  | nil => exact .inr hmem
  | cons x rest ih =>
    have hinsert : h ∈ insert x missing → h ∈ x :: rest ∨ h ∈ missing := by
      rw [Finset.mem_insert, List.mem_cons]
      tauto
    unfold addMissing at hmem
    split at hmem
    · exact hinsert hmem
    · exact (ih hmem).elim (fun hrest => .inl (List.mem_cons_of_mem _ hrest)) hinsert

end Children

/-! ## The invariant -/

/-- `done` are stored nodes that have left the worklist: they, and the root, lead only to nodes
that are done or on the worklist.  The worklist leads nowhere else than the root does. -/
structure Covers (hasher : Hasher δ) (root : Bytes) (s : Syncer δ) (done : Set Bytes) : Prop where
  stored : WellKeyed hasher s.db
  work : WorkKeyed hasher s.nodesForTrie
  root_mem : root ∈ done ∨ root ∈ s.nodesForTrie.keys
  closed : ∀ h ∈ done, ∃ n, s.db.lookup h = some n ∧
    ∀ i, n.encodedChild i ≠ [] → n.encodedChild i ∈ done ∨ n.encodedChild i ∈ s.nodesForTrie.keys
  reachable : ∀ h ∈ s.nodesForTrie.keys, Reachable hasher root h

/-- The same within `checkIfSynced`, which keeps missing nodes of its own. -/
structure PassCovers (hasher : Hasher δ) (root : Bytes) (p : Pass δ) (done : Set Bytes) : Prop where
  syncer : Covers hasher root p.syncer done
  missing : ∀ h ∈ p.missingNodes, Reachable hasher root h

section Runs

variable {hasher : Hasher δ} {env : Environment δ} {root : Bytes} {cap : Nat}

variable {s' : Syncer δ} {done : Set Bytes}

theorem Covers.mono {s : Syncer δ} (h : Covers hasher root s done) (hdb : s'.db = s.db)
    (hkeys : s.nodesForTrie.keys ⊆ s'.nodesForTrie.keys)
    (hwork : WorkKeyed hasher s'.nodesForTrie)
    (hreach : ∀ h ∈ s'.nodesForTrie.keys, Reachable hasher root h) :
    Covers hasher root s' done where
  stored := hdb ▸ h.stored
  work := hwork
  root_mem := h.root_mem.imp_right fun hmem => hkeys hmem
  closed hash hdone := by
    obtain ⟨n, hn, hchildren⟩ := h.closed hash hdone
    exact ⟨n, by rw [hdb, hn], fun i hi => (hchildren i hi).imp_right fun hmem => hkeys hmem⟩
  reachable := hreach

/-- The counters do not matter. -/
theorem Covers.counted {s : Syncer δ} (h : Covers hasher root s done) (lookups rounds : Nat) :
    Covers hasher root { s with lookups := lookups, rounds := rounds } done :=
  h.mono rfl subset_rfl h.work h.reachable

variable {nodeHash : Bytes} {n : Collapsed δ}

/-- A node whose children are all at hand may leave the worklist. -/
theorem Covers.commitNode {s : Syncer δ} (h : Covers hasher root s done)
    (honest : env.Honest hasher) {t : Nat} (hn : hasher.compute n = nodeHash)
    (hreach : Reachable hasher root nodeHash)
    (hmissing : missingChildren n (s.fetched env t n) = []) :
    Covers hasher root (s.commitNode hasher nodeHash n (s.fetched env t n))
      (insert nodeHash done) := by
  have hchildren : ∀ i child, loaded (s.fetched env t n) i = some child →
      hasher.compute child = n.encodedChild i :=
    fun i child => loaded_keyed honest h.stored h.work
  -- what was on the worklist still is, except the node itself, which is done now
  have hkeys : ∀ k, k ∈ (addNew hasher (existingChildren (s.fetched env t n)) s.nodesForTrie).keys →
      k ∈ insert nodeHash done ∨
        k ∈ (s.commitNode hasher nodeHash n (s.fetched env t n)).nodesForTrie.keys := by
    intro k hk
    by_cases hself : k = nodeHash
    · exact .inl (.inl hself)
    · refine .inr ?_
      simp only [Syncer.commitNode, Finmap.keys_erase, Finset.mem_erase]
      exact ⟨hself, hk⟩
  have hold : ∀ k, k ∈ done ∨ k ∈ s.nodesForTrie.keys → k ∈ insert nodeHash done ∨
      k ∈ (s.commitNode hasher nodeHash n (s.fetched env t n)).nodesForTrie.keys := by
    rintro k (hk | hk)
    · exact .inl (.inr hk)
    · exact hkeys k (by rw [addNew_keys]; exact mem_union_right _ hk)
  have hdb : (s.commitNode hasher nodeHash n (s.fetched env t n)).db = s.db.insert nodeHash n := by
    simp only [Syncer.commitNode, getCollapsed_eq_self hchildren, hn]
  constructor
  case stored =>
    intro k m hk
    rw [hdb, lookup_insert_ite] at hk
    split at hk
    · next heq =>
      cases hk
      rw [hn, heq]
    · exact h.stored k m hk
  case work => exact (h.work.addNew _).erase _
  case root_mem => exact hold root h.root_mem
  case closed =>
    intro k hk
    rw [hdb, lookup_insert_ite]
    by_cases hself : k = nodeHash
    · rw [if_pos hself]
      refine ⟨n, rfl, fun i hi => ?_⟩
      obtain ⟨child, hmem, hloaded⟩ := mem_existingChildren hmissing hi
      refine hkeys _ ?_
      rw [addNew_keys]
      refine mem_union_left _ (List.mem_toFinset.2 ?_)
      exact List.mem_map.2 ⟨child, hmem, hchildren i child hloaded⟩
    · rw [if_neg hself]
      obtain ⟨m, hm, hnext⟩ := h.closed k (hk.resolve_left hself)
      exact ⟨m, hm, fun i hi => hold _ (hnext i hi)⟩
  case reachable =>
    intro k hk
    simp only [Syncer.commitNode, Finmap.keys_erase, Finset.mem_erase, addNew_keys,
      Finset.mem_union, List.mem_toFinset, List.mem_map] at hk
    obtain ⟨-, ⟨child, hchild, rfl⟩ | hk⟩ := hk
    · exact reachable_existing (hn ▸ hreach) honest h.stored h.work hchild
    · exact h.reachable k hk

theorem visitNode_commit {p : Pass δ} (hnonempty : n.isEmptyOrNil = none)
    (hmissing : missingChildren n (p.syncer.fetched env p.syncer.lookups n) = []) :
    visitNode hasher env cap nodeHash n p = .ok (.next, { p with
      checkedNodes := insert nodeHash p.checkedNodes
      syncer := { p.syncer with lookups := p.syncer.lookups + 17 }.commitNode hasher nodeHash n
        (p.syncer.fetched env p.syncer.lookups n)
      newElement := p.newElement || isNewElement hasher
        (existingChildren (p.syncer.fetched env p.syncer.lookups n)) p.syncer.nodesForTrie }) := by
  simp only [visitNode, hnonempty, hmissing, ne_eq, not_true_eq_false, if_false]

variable {p' : Pass δ} {flow : Flow}

section
variable (honest : env.Honest hasher)
include honest

theorem visitNode_covers {p : Pass δ} (h : PassCovers hasher root p done)
    (hn : hasher.compute n = nodeHash) (hreach : Reachable hasher root nodeHash)
    (hvisit : visitNode hasher env cap nodeHash n p = .ok (flow, p')) :
    ∃ done', PassCovers hasher root p' done' := by
  have hcounted := h.syncer.counted (p.syncer.lookups + 17) p.syncer.rounds
  have hmissing : ∀ k ∈ (addMissing cap (missingChildren n
      (p.syncer.fetched env p.syncer.lookups n)) p.missingNodes).1, Reachable hasher root k :=
    fun k hk =>
    (mem_addMissing _ hk).elim (reachable_missing (hn ▸ hreach)) (h.missing k)
  unfold visitNode at hvisit
  dsimp only at hvisit
  split at hvisit
  · cases hvisit
  split_ifs at hvisit with hsome hcap
  · cases hvisit
    exact ⟨done, hcounted, hmissing⟩
  · cases hvisit
    refine ⟨done, hcounted.mono rfl ?_ (h.syncer.work.addNew _) fun k hk => ?_, hmissing⟩
    · rw [addNew_keys]
      exact subset_union_right
    · simp only [addNew_keys, Finset.mem_union, List.mem_toFinset, List.mem_map, List.mem_append,
        List.mem_singleton] at hk
      obtain ⟨child, hchild | rfl, rfl⟩ | hk := hk
      · exact reachable_existing (hn ▸ hreach) honest h.syncer.stored h.syncer.work hchild
      · exact hn ▸ hreach
      · exact h.syncer.reachable k hk
  · cases hvisit
    exact ⟨_, hcounted.commitNode honest hn hreach (not_not.1 hsome), h.missing⟩

theorem visit_covers {p : Pass δ} (h : PassCovers hasher root p done)
    (hvisit : visit hasher env cap nodeHash p = .ok (flow, p')) :
    ∃ done', PassCovers hasher root p' done' := by
  unfold visit at hvisit
  split at hvisit
  · cases hvisit
    exact ⟨done, h⟩
  next info hinfo =>
  split at hvisit
  · cases hvisit
    exact ⟨done, h⟩
  have hreach : Reachable hasher root nodeHash := h.syncer.reachable nodeHash <| by
    rw [mem_keys, ← lookup_isSome, hinfo]
    rfl
  cases info with
  | received n => exact visitNode_covers honest h (h.syncer.work _ _ hinfo) hreach hvisit
  | missing =>
    have hcounted := h.syncer.counted (p.syncer.lookups + 1) p.syncer.rounds
    cases hget : p.syncer.getNode env p.syncer.lookups nodeHash with
    | error e =>
      rw [hget] at hvisit
      cases hvisit
      exact ⟨done, hcounted, h.missing⟩
    | ok n =>
      rw [hget] at hvisit
      exact visitNode_covers honest (p := { p with syncer := _ }) ⟨hcounted, h.missing⟩
        (getNode_keyed honest h.syncer.stored h.syncer.work hget) hreach hvisit

theorem range_covers (order : List Bytes) {p : Pass δ} (h : PassCovers hasher root p done)
    (hrange : range hasher env cap order p = .ok p') :
    ∃ done', PassCovers hasher root p' done' := by
  induction order generalizing p done with
  | nil =>
    cases hrange
    exact ⟨done, h⟩
  | cons nodeHash rest ih =>
    unfold range at hrange
    split at hrange
    · cases hrange
    · next hvisit =>
      cases hrange
      exact visit_covers honest h hvisit
    · next hvisit =>
      obtain ⟨done', h'⟩ := visit_covers honest h hvisit
      exact ih h' hrange

theorem repeatRange_covers (fuel : Nat) {p : Pass δ} (h : PassCovers hasher root p done)
    (hrun : repeatRange hasher env cap fuel p = some (.ok p')) :
    ∃ done', PassCovers hasher root p' done' := by
  induction fuel generalizing p done with
  | zero => cases hrun
  | succ fuel ih =>
    unfold repeatRange at hrun
    dsimp only at hrun
    split at hrun
    · cases hrun
    next hrange =>
    have hcounted := h.syncer.counted p.syncer.lookups (p.syncer.rounds + 1)
    obtain ⟨done', h'⟩ := range_covers honest (p := { p with syncer := _, newElement := _ }) _
      ⟨hcounted, h.missing⟩ hrange
    split at hrun
    · exact ih h' hrun
    · cases hrun
      exact ⟨done', h'⟩

theorem checkIfSynced_covers {fuel : Nat} {s : Syncer δ} {retry : Bool}
    (h : Covers hasher root s done)
    (hrun : checkIfSynced hasher env cap fuel s = some (.ok (retry, s'))) :
    ∃ done', Covers hasher root s' done' := by
  unfold checkIfSynced at hrun
  split at hrun
  · cases hrun
  · cases hrun
  next hpass =>
  split at hrun
  · cases hrun
  cases hrun
  obtain ⟨done', h', hmissing⟩ := repeatRange_covers honest fuel
    (p := ⟨s, ∅, ∅, true, false⟩) ⟨h, fun k hk => absurd hk (Finset.notMem_empty k)⟩ hpass
  refine ⟨done', h'.mono rfl ?_ (h'.work.setAll _) fun k hk => ?_⟩ <;>
    dsimp only [addMissingNodes] at *
  · rw [keys_setAll]
    exact subset_union_left
  · rw [keys_setAll, Finset.mem_union] at hk
    exact hk.elim (h'.reachable k) (hmissing k)

theorem syncLoop_covers {closing : Nat → Bool} (fuel : Nat) {s : Syncer δ}
    (h : Covers hasher root s done)
    (hrun : syncLoop hasher env cap closing fuel s = some (.ok s')) :
    (∃ done', Covers hasher root s' done') ∧ s'.requestNodes = 0 := by
  induction fuel generalizing s done with
  | zero => cases hrun
  | succ fuel ih =>
    unfold syncLoop at hrun
    split at hrun
    · cases hrun
    · cases hrun
    next hpass =>
    obtain ⟨done', h'⟩ := checkIfSynced_covers honest h hpass
    split_ifs at hrun with hfinished
    · cases hrun
      rw [Bool.and_eq_true, decide_eq_true_eq] at hfinished
      exact ⟨⟨done', h'⟩, hfinished.2⟩
    · cases hrun
    · exact ih h' hrun

end

theorem Covers.start {db : Finmap fun _ : Bytes => Collapsed δ} (hdb : WellKeyed hasher db)
    (hroot : emptyTrie root = false) (trieRoot : Option (Collapsed δ)) :
    Covers hasher root (.start db trieRoot root) ∅ where
  stored := hdb
  work := by
    intro h n hn
    by_cases heq : h = root
    · subst heq
      simp [start] at hn
    · rw [Syncer.start, Finmap.lookup_eq_none.2 (by simpa using heq)] at hn
      cases hn
  root_mem := .inr (by simp [Syncer.start])
  closed h hh := absurd hh (Set.notMem_empty h)
  reachable h hh := by
    obtain rfl : h = root := by simpa [Syncer.start] using hh
    exact .root hroot

theorem Covers.complete {s : Syncer δ} (h : Covers hasher root s done)
    (hempty : s.nodesForTrie.keys = ∅) : Complete hasher root s.db := by
  have pending : ∀ k, ¬ k ∈ s.nodesForTrie.keys := by simp [hempty]
  -- along a path from the root every node is done
  have hdone : ∀ k, Reachable hasher root k → k ∈ done := by
    intro k hk
    induction hk with
    | root => exact h.root_mem.resolve_right (pending root)
    | @child n i _ hchild ih =>
      obtain ⟨m, hm, hnext⟩ := h.closed _ ih
      obtain rfl : m = n := hasher.injective (h.stored _ _ hm)
      exact (hnext i hchild).resolve_right (pending _)
  intro k hk
  obtain ⟨n, hn, -⟩ := h.closed k (hdone k hk)
  exact ⟨n, hn, h.stored k n hn⟩

/-- **When `StartSyncing` returns `nil`, the database holds everything reachable from the root**, if
that is fewer than `2^32` hashes. -/
theorem startSyncing_complete (honest : env.Honest hasher)
    {db : Finmap fun _ : Bytes => Collapsed δ} (hdb : WellKeyed hasher db)
    (hcount : {h | Reachable hasher root h}.encard < 2 ^ 32)
    {trieRoot : Option (Collapsed δ)} {fuel : Nat} {s : Syncer δ}
    (hrun : startSyncing hasher env cap fuel db trieRoot root = some (.ok s)) :
    Complete hasher root s.db := by
  unfold startSyncing at hrun
  split at hrun
  · -- the empty trie has no nodes
    next hempty =>
    intro h hreach
    cases hrun
    have noRoot : ∀ k, ¬ Reachable hasher root k := by
      intro k hk
      induction hk with
      | root hroot => rw [hempty] at hroot; cases hroot
      | child _ _ ih => exact ih
    exact absurd hreach (noRoot h)
  · next hroot =>
    split at hrun
    · cases hrun
    obtain ⟨⟨done, hcovers⟩, hzero⟩ := syncLoop_covers honest fuel
      (.start hdb (by simpa using hroot) trieRoot) hrun
    have hlt : s.nodesForTrie.keys.card < 2 ^ 32 := by
      have hle := Set.encard_le_encard (s := (s.nodesForTrie.keys : Set Bytes)) hcovers.reachable
      rw [Set.encard_coe_eq_coe_finsetCard] at hle
      exact_mod_cast hle.trans_lt hcount
    refine hcovers.complete (card_eq_zero.1 ?_)
    have hmod := congrArg UInt32.toNat hzero
    rw [Syncer.requestNodes, UInt32.toNat_ofNat', Nat.mod_eq_of_lt hlt] at hmod
    exact hmod

end Runs

def byteHasher : Hasher UInt8 := plainHasher id Function.injective_id

/-- A leaf that is stored already. -/
def storedLeaf : Collapsed UInt8 := .leaf [2, 16] [7]

/-- A root that has to be received. -/
def offeredRoot : Collapsed UInt8 := .extension [1] (byteHasher.compute storedLeaf)

theorem reachable_offeredRoot {h : Bytes}
    (hreach : Reachable byteHasher (byteHasher.compute offeredRoot) h) :
    h ∈ ({byteHasher.compute offeredRoot, byteHasher.compute storedLeaf} : Set Bytes) := by
  induction hreach with
  | root => exact .inl rfl
  | @child n i _ hchild ih =>
    obtain heq | heq := ih <;> obtain rfl := byteHasher.injective heq
    · simp only [offeredRoot, Collapsed.encodedChild] at hchild ⊢
      split at hchild
      · next h0 => rw [if_pos h0]; exact .inr rfl
      · exact absurd rfl hchild
    · exact absurd rfl hchild

theorem startSyncing_complete_offeredRoot :
    let env : Environment UInt8 :=
      { interceptedNodes := fun _ h =>
          if h = byteHasher.compute offeredRoot then some (.node offeredRoot) else none
        order := fun _ => [byteHasher.compute offeredRoot, byteHasher.compute storedLeaf]
        timeout := fun _ => false
        done := some fun _ => false }
    let db := singleton (byteHasher.compute storedLeaf) storedLeaf
    ∃ s, startSyncing byteHasher env 1 5 db none (byteHasher.compute offeredRoot) = some (.ok s) ∧
      Complete byteHasher (byteHasher.compute offeredRoot) s.db := by
  intro env db
  have honest : env.Honest byteHasher := by
    intro t h n hn
    simp only [env] at hn
    split at hn
    · next heq =>
      cases hn
      exact heq.symm
    · cases hn
  have hdb : WellKeyed byteHasher db := by
    intro h n hn
    by_cases heq : h = byteHasher.compute storedLeaf
    · subst heq
      rw [lookup_singleton_eq] at hn
      cases hn
      rfl
    · rw [lookup_eq_none.2 (by simpa [db] using heq)] at hn
      cases hn
  have hcount : {h | Reachable byteHasher (byteHasher.compute offeredRoot) h}.encard < 2 ^ 32 := by
    refine (Set.encard_le_encard fun h hreach => reachable_offeredRoot hreach).trans_lt ?_
    refine (Set.encard_insert_le _ _).trans_lt ?_
    rw [Set.encard_singleton]
    norm_num
  obtain ⟨s, hrun⟩ : ∃ s, startSyncing byteHasher env 1 5 db none
      (byteHasher.compute offeredRoot) = some (.ok s) := ⟨_, rfl⟩
  exact ⟨s, hrun, startSyncing_complete honest hdb hcount hrun⟩

/-! ## A worklist of `2^32` nodes

The trie of all keys of four bytes has `2^32` leaves.  Where every node but the leaves below its
last branch is at hand, a range loop that goes through the branches level by level has put every
other leaf on the worklist before it comes to this branch. -/

section Full

/-- The subtree at a node of this trie.  The nodes are numbered level by level, the branches first;
the value of a leaf is its number. -/
def full (i : Nat) : PTree :=
  if i < 286331153 then .branch (Fin.lastCases .nil fun d : Fin 16 => full (16 * i + 1 + d))
  else .leaf [hexTerminator] ⟨0 :: (Nat.digits 256 i).map UInt8.ofNat, by simp⟩
termination_by 286331153 - i

theorem full_branch {i : Nat} (hi : i < 286331153) :
    full i = .branch (Fin.lastCases .nil fun d : Fin 16 => full (16 * i + 1 + d)) := by
  rw [full, if_pos hi]

theorem full_ne_nil (i : Nat) : full i ≠ .nil := by
  rw [full]
  split <;> simp

theorem full_canonical (i : Nat) : (full i).Canonical := by
  fun_induction full i with
  | case2 => trivial
  | case1 i _ ih =>
    have hchild (d : Fin 16) : (Fin.lastCases .nil (fun d : Fin 16 => full (16 * i + 1 + d))
        d.castSucc : PTree) ≠ .nil := by
      rw [Fin.lastCases_castSucc]
      exact full_ne_nil _
    refine ⟨⟨_, _, by decide, hchild 0, hchild 1⟩, fun i => ?_⟩
    beta_reduce
    induction i using Fin.lastCases with
    | last =>
      rw [Fin.lastCases_last]
      trivial
    | cast d =>
      rw [Fin.lastCases_castSucc]
      exact ih d

theorem digits_map_injective : Function.Injective fun i => (Nat.digits 256 i).map UInt8.ofNat := by
  have hback (i : Nat) :
      ((Nat.digits 256 i).map UInt8.ofNat).map UInt8.toNat = Nat.digits 256 i := by
    rw [List.map_map]
    refine (List.map_congr_left fun d hd => ?_).trans (List.map_id _)
    exact UInt8.toNat_ofNat_of_lt (Nat.digits_lt_base' hd)
  intro i j h
  apply Nat.digits.injective 256
  rw [← hback i, ← hback j]
  exact congrArg (List.map UInt8.toNat) h

theorem full_injective : Function.Injective full := by
  intro i
  fun_induction full i with
  | case1 i _ ih =>
    intro j h
    rw [full] at h
    split at h
    · have hfirst := congrFun (Patricia.Tree.branch.inj h) (Fin.castSucc 0)
      rw [Fin.lastCases_castSucc, Fin.lastCases_castSucc] at hfirst
      have := ih 0 hfirst
      omega
    · cases h
  | case2 i =>
    intro j h
    rw [full] at h
    split at h
    · cases h
    · simp only [Patricia.Tree.leaf.injEq, true_and, Subtype.mk.injEq, List.cons.injEq] at h
      exact digits_map_injective h

/-- Every leaf below a node is as many digits away as the bounds on the node's number tell. -/
theorem exists_of_lookup_full (height : Nat) {i : Nat}
    (hlow : 16 ^ 8 ≤ (15 * i + 1) * 16 ^ height) (hhigh : (15 * i + 16) * 16 ^ height ≤ 16 ^ 9)
    {key : List Digit} {v : Value} (h : (full i).lookup key = some v) :
    ∃ digits : List (Fin 16), digits.length = height ∧
      key = digits.map Fin.castSucc ++ [hexTerminator] := by
  induction height generalizing i key with
  | zero =>
    rw [full, if_neg (by omega), Patricia.Tree.lookup] at h
    split at h
    · next hkey => exact ⟨[], rfl, hkey⟩
    · cases h
  | succ height ih =>
    have hpos := Nat.one_le_pow height 16 (by decide)
    rw [pow_succ' 16 height, ← mul_assoc] at hlow hhigh
    rw [full_branch (by nlinarith)] at h
    cases key with
    | nil => cases h
    | cons i key =>
      rw [Patricia.Tree.lookup] at h
      induction i using Fin.lastCases with
      | last =>
        rw [Fin.lastCases_last] at h
        cases h
      | cast d =>
        rw [Fin.lastCases_castSucc] at h
        obtain ⟨digits, rfl, rfl⟩ := ih
          (hlow.trans (Nat.mul_le_mul_right _ (by omega)))
          ((Nat.mul_le_mul_right _ (by omega)).trans hhigh) h
        exact ⟨d :: digits, rfl, rfl⟩

/-- An even number of digits is the nibbles of some bytes. -/
theorem exists_flatMap_nibbles (count : Nat) {digits : List (Fin 16)}
    (h : digits.length = 2 * count) : ∃ bytes : Bytes, digits.map Fin.castSucc =
      bytes.flatMap fun b => [lowNibble b, highNibble b] := by
  induction count generalizing digits with
  | zero => exact ⟨[], by simp [List.length_eq_zero_iff.1 h]⟩
  | succ count ih =>
    match digits, h with
    | low :: high :: digits, h =>
      obtain ⟨bytes, hbytes⟩ := ih (show digits.length = 2 * count by
        simpa [Nat.mul_succ] using h)
      have hbyte : ∀ low high : Fin 16, lowNibble (UInt8.ofNat (high * 16 + low)) = low.castSucc ∧
          highNibble (UInt8.ofNat (high * 16 + low)) = high.castSucc := by decide
      refine ⟨UInt8.ofNat (high * 16 + low) :: bytes, ?_⟩
      rw [List.flatMap_cons, (hbyte low high).1, (hbyte low high).2, ← hbytes]
      rfl

theorem full_means : ∃ m, Means (full 0) m := by
  refine ⟨_, full_canonical _, fun k => rfl, fun key v h => ?_⟩
  obtain ⟨digits, hlen, rfl⟩ := exists_of_lookup_full 8 (by decide) (by decide) h
  obtain ⟨bytes, hbytes⟩ := exists_flatMap_nibbles 4 hlen
  exact ⟨bytes.reverse, by rw [hbytes, keyBytesToHex, List.reverse_reverse]⟩

variable (hasher : Hasher Digit)

def fullNode (i : Nat) : Collapsed Digit := (content hasher (full i)).getD (.leaf [] [])

def fullHash (i : Nat) : Bytes := hasher.compute (fullNode hasher i)

theorem fullHash_eq_merkle (i : Nat) : fullHash hasher i = merkle hasher (full i) := by
  rw [fullHash, fullNode, full]
  split <;> rfl

theorem fullHash_injective : Function.Injective (fullHash hasher) := by
  intro i j h
  rw [fullHash_eq_merkle, fullHash_eq_merkle] at h
  exact full_injective (merkle_injective hasher h)

theorem emptyTrie_fullHash (i : Nat) : emptyTrie (fullHash hasher i) = false := by
  simp [emptyTrie, fullHash, hasher.compute_ne_nil, hasher.compute_ne_emptyTrieHash]

variable {hasher} {i : Nat}

section
variable (hi : i < 286331153)
include hi

theorem encodedChild_fullNode (d : Fin 16) :
    (fullNode hasher i).encodedChild d.castSucc = fullHash hasher (16 * i + 1 + d) := by
  rw [fullHash_eq_merkle, fullNode, full_branch hi]
  simp [content, Collapsed.encodedChild]

theorem isEmptyOrNil_fullNode : (fullNode hasher i).isEmptyOrNil = none := by
  have hchild : (fullNode hasher i).encodedChild (Fin.castSucc 0) = _ := encodedChild_fullNode hi 0
  rw [fullNode, full_branch hi] at hchild ⊢
  exact if_neg fun hall => hasher.compute_ne_nil _ (hchild.symm.trans (hall _))

variable (s : Syncer Digit) (env : Environment Digit) (t : Nat)

theorem fetched_fullNode (d : Fin 16) : s.fetched env t (fullNode hasher i) d.castSucc =
    some (s.getNode env (t + d) (fullHash hasher (16 * i + 1 + d))) := by
  rw [fetched, encodedChild_fullNode hi]
  exact if_neg (hasher.compute_ne_nil _)

theorem fetched_fullNode_last :
    s.fetched env t (fullNode hasher i) (Fin.last 16) = none := by
  refine if_pos ?_
  rw [fullNode, full_branch hi]
  simp only [content, Option.getD_some, Collapsed.encodedChild]
  rw [Fin.lastCases_last, merkle]

end

theorem fullHash_reachable (hi : i ≤ 4581298448) :
    Reachable hasher (fullHash hasher 0) (fullHash hasher i) := by
  induction i using Nat.strongRecOn with
  | _ i ih =>
    cases i with
    | zero => exact .root (emptyTrie_fullHash hasher 0)
    | succ i =>
      have hchild : (fullNode hasher (i / 16)).encodedChild (Fin.ofNat 16 i).castSucc =
          fullHash hasher (i + 1) := by
        rw [encodedChild_fullNode (by omega), Fin.val_ofNat]
        exact congrArg (fullHash hasher) (by omega)
      rw [← hchild]
      refine (ih (i / 16) (by omega) (by omega)).child ?_
      rw [hchild]
      exact hasher.compute_ne_nil _

variable (hasher) in
/-- Every node but the leaves of the last branch is offered at all times, and a range loop goes
through the branches. -/
noncomputable def fullEnv (last : Nat) : Environment Digit where
  interceptedNodes _ := Function.extend (fullHash hasher) (fun i =>
    if i ≤ 4581298432 then some (.node (fullNode hasher i)) else none) fun _ => none
  order _ := (List.range (last + 1)).map (fullHash hasher)
  timeout _ := false
  done := some fun _ => false

variable {last : Nat}

theorem intercepted_fullHash (t i : Nat) :
    (fullEnv hasher last).interceptedNodes t (fullHash hasher i) =
      if i ≤ 4581298432 then some (.node (fullNode hasher i)) else none := by
  simp only [fullEnv, (fullHash_injective hasher).extend_apply]

theorem fullEnv_honest : (fullEnv hasher last).Honest hasher := by
  intro t h n hn
  by_cases hex : ∃ i, fullHash hasher i = h
  · obtain ⟨i, rfl⟩ := hex
    rw [intercepted_fullHash] at hn
    split at hn
    · cases hn
      rfl
    · cases hn
  · simp only [fullEnv, Function.extend_apply' _ _ _ hex] at hn
    cases hn

/-- The run after the first `k` branches have been committed. -/
structure FullAt (hasher : Hasher Digit) (k : Nat) (p : Pass Digit) : Prop where
  work : WorkKeyed hasher p.syncer.nodesForTrie
  keys : p.syncer.nodesForTrie.keys = (Icc k (16 * k)).image (fullHash hasher)
  checked : ∀ i, fullHash hasher i ∈ p.checkedNodes → i < k
  missing : p.missingNodes = ∅
  retry : p.shouldRetryAfterRequest = false
  db : ∀ i, 4581298432 < i → p.syncer.db.lookup (fullHash hasher i) = none

variable {k : Nat} {p : Pass Digit}

section
variable (h : FullAt hasher k p) (hk : k ≤ 286331152)
include h hk

theorem FullAt.lost_notMem (hi : 4581298432 < i) :
    fullHash hasher i ∉ p.syncer.nodesForTrie.keys := by
  rw [h.keys, (fullHash_injective hasher).mem_finset_image, Finset.mem_Icc]
  omega

theorem FullAt.getNode_eq (t i : Nat) :
    p.syncer.getNode (fullEnv hasher last) t (fullHash hasher i) =
      if i ≤ 4581298432 then .ok (fullNode hasher i) else .error .ErrNodeNotFound := by
  unfold getNode
  by_cases hi : i ≤ 4581298432
  · rw [if_pos hi]
    split
    · next hm => rw [hasher.injective (h.work _ _ hm)]
    · simp only [intercepted_fullHash, if_pos hi]
  · have absent := h.lost_notMem hk (not_le.1 hi)
    rw [mem_keys, ← lookup_eq_none] at absent
    simp only [absent, intercepted_fullHash, if_neg hi, h.db i (not_le.1 hi)]

/-- The turn that comes to the next branch finds it and goes on with it. -/
theorem FullAt.visit_eq (last : Nat) :
    ∃ q, FullAt hasher k q ∧ visit hasher (fullEnv hasher last) 14 (fullHash hasher k) p =
      visitNode hasher (fullEnv hasher last) 14 (fullHash hasher k) (fullNode hasher k) q := by
  have unchecked : fullHash hasher k ∉ p.checkedNodes := fun hmem => (h.checked k hmem).false
  have hsome : fullHash hasher k ∈ p.syncer.nodesForTrie.keys := by
    rw [h.keys]
    exact mem_image_of_mem _ (Finset.mem_Icc.2 (by omega))
  rw [mem_keys, ← lookup_isSome, Option.isSome_iff_exists] at hsome
  obtain ⟨info, hinfo⟩ := hsome
  cases info with
  | received n =>
    refine ⟨p, h, ?_⟩
    simp only [visit, hinfo, if_neg unchecked, hasher.injective (h.work _ _ hinfo)]
  | missing =>
    refine ⟨{ p with syncer := { p.syncer with lookups := p.syncer.lookups + 1 } },
      ⟨h.work, h.keys, h.checked, h.missing, h.retry, h.db⟩, ?_⟩
    simp only [visit, hinfo, if_neg unchecked, h.getNode_eq hk,
      if_pos (show k ≤ 4581298432 by omega)]

end

theorem filterMap_finRange_of_last {α : Type} {n : Nat} {f : Fin (n + 1) → Option α}
    (h : f (Fin.last n) = none) :
    (List.finRange (n + 1)).filterMap f = (List.finRange n).filterMap fun i => f i.castSucc := by
  rw [List.finRange_succ_last, List.filterMap_append, List.filterMap_map]
  simp [h]

/-- Visiting a branch commits it and puts its children on the worklist. -/
theorem FullAt.visitNode_next (h : FullAt hasher k p) (hk : k < 286331152) (last : Nat) :
    ∃ q, visitNode hasher (fullEnv hasher last) 14 (fullHash hasher k) (fullNode hasher k) p =
      .ok (.next, q) ∧ FullAt hasher (k + 1) q := by
  have hbranch : k < 286331153 := by omega
  set fetched := p.syncer.fetched (fullEnv hasher last) p.syncer.lookups (fullNode hasher k)
    with hdef
  have hfetched (d : Fin 16) :
      fetched d.castSucc = some (.ok (fullNode hasher (16 * k + 1 + d))) := by
    rw [hdef, fetched_fullNode hbranch, h.getNode_eq hk.le, if_pos (by omega)]
  have hlast : fetched (Fin.last 16) = none := fetched_fullNode_last hbranch ..
  have hmissing : missingChildren (fullNode hasher k) fetched = [] := by
    rw [missingChildren, filterMap_finRange_of_last (by simp only [hlast])]
    simp only [hfetched, List.filterMap_eq_nil_iff, implies_true]
  have hexisting : existingChildren fetched =
      (List.finRange 16).map fun d : Fin 16 => fullNode hasher (16 * k + 1 + d) := by
    rw [existingChildren, filterMap_finRange_of_last (by simp only [loaded, hlast])]
    simp only [loaded, hfetched, List.filterMap_eq_map']
  refine ⟨_, visitNode_commit (isEmptyOrNil_fullNode hbranch) hmissing, (h.work.addNew _).erase _,
    ?_, fun i hmem => ?_, h.missing, h.retry, fun i hi => ?_⟩
  · have hchildren :
        (((List.finRange 16).map fun d : Fin 16 => fullNode hasher (16 * k + 1 + d)).map
          hasher.compute).toFinset = (Icc (16 * k + 1) (16 * k + 16)).image (fullHash hasher) := by
      ext x
      simp only [List.map_map, List.mem_toFinset, List.mem_map, List.mem_finRange, true_and,
        mem_image, Finset.mem_Icc]
      constructor
      · rintro ⟨d, rfl⟩
        exact ⟨16 * k + 1 + d, by omega, rfl⟩
      · rintro ⟨i, hi, rfl⟩
        refine ⟨⟨i - (16 * k + 1), by omega⟩, ?_⟩
        exact congrArg (fullHash hasher) (Nat.add_sub_cancel' hi.1)
    simp only [commitNode, keys_erase, addNew_keys]
    rw [hexisting, hchildren, h.keys, ← image_union, ← image_erase (fullHash_injective hasher)]
    refine congrArg (Finset.image _) (Finset.ext fun i => ?_)
    simp only [Finset.mem_erase, Finset.mem_union, Finset.mem_Icc]
    omega
  · rcases Finset.mem_insert.1 hmem with heq | hmem
    · exact Nat.lt_succ_of_le (fullHash_injective hasher heq).le
    · exact Nat.lt_succ_of_lt (h.checked i hmem)
  · simp only [commitNode]
    rw [lookup_insert_of_ne, h.db i hi]
    intro heq
    have := fullHash_injective hasher heq
    omega

theorem addMissing_reached (cap : Nat) (hashes : List Bytes) (missing : Finset Bytes)
    (hnodup : hashes.Nodup) (hnew : ∀ x ∈ hashes, x ∉ missing) (hle : missing.card ≤ cap)
    (hcap : cap < missing.card + hashes.length) :
    (addMissing cap hashes missing).1.card = cap + 1 ∧
      (addMissing cap hashes missing).2 = true := by
  induction hashes generalizing missing with
  | nil => exact absurd hle (not_le.2 hcap)
  | cons x rest ih =>
    obtain ⟨hx, hnodup⟩ := List.nodup_cons.1 hnodup
    have hcard : (insert x missing).card = missing.card + 1 :=
      card_insert_of_notMem (hnew x List.mem_cons_self)
    rw [List.length_cons] at hcap
    unfold addMissing
    split
    · exact ⟨show (insert x missing).card = cap + 1 by omega, rfl⟩
    · refine ih _ hnodup (fun z hz => ?_) (by omega) (by omega)
      rw [Finset.mem_insert, not_or]
      exact ⟨fun heq => hx (heq ▸ hz), hnew z (List.mem_cons_of_mem _ hz)⟩

/-- The last branch misses all its leaves, which are more than the hard cap: the range loop ends. -/
theorem FullAt.visitNode_stop (h : FullAt hasher k p) (hk : k = 286331152) (last : Nat) :
    ∃ q, visitNode hasher (fullEnv hasher last) 14 (fullHash hasher k) (fullNode hasher k) p =
        .ok (.stop, q) ∧
      (q.syncer.nodesForTrie.keys ∪ q.missingNodes).card = 2 ^ 32 ∧ q.newElement = false ∧
      q.shouldRetryAfterRequest = false ∧
      q.syncer.db.lookup (fullHash hasher (16 * k + 1)) = none := by
  have hbranch : k < 286331153 := by omega
  have hlost (d : Fin 16) : ¬ 16 * k + 1 + (d : Nat) ≤ 4581298432 := by omega
  set hashes := (List.finRange 16).map fun d : Fin 16 => fullHash hasher (16 * k + 1 + d)
    with hhashes
  have hmissing : missingChildren (fullNode hasher k) (p.syncer.fetched (fullEnv hasher last)
      p.syncer.lookups (fullNode hasher k)) = hashes := by
    rw [missingChildren, filterMap_finRange_of_last (by rw [fetched_fullNode_last hbranch])]
    simp only [fetched_fullNode hbranch, h.getNode_eq hk.le, if_neg (hlost _),
      encodedChild_fullNode hbranch, List.filterMap_eq_map', hhashes]
  have hnodup : hashes.Nodup := by
    refine (List.nodup_finRange 16).map fun d e heq => Fin.ext ?_
    exact Nat.add_left_cancel (fullHash_injective hasher heq)
  obtain ⟨hcard, hreached⟩ := addMissing_reached 14 hashes ∅ hnodup (by simp) (by simp)
    (by simp [hhashes])
  refine ⟨{ p with
    checkedNodes := insert (fullHash hasher k) p.checkedNodes
    syncer := { p.syncer with lookups := p.syncer.lookups + 17 }
    missingNodes := (addMissing 14 hashes ∅).1
    newElement := false }, ?_, ?_, rfl, h.retry, h.db _ (by omega)⟩
  · have hne : hashes ≠ [] := by simp [hhashes]
    simp only [visitNode, isEmptyOrNil_fullNode hbranch, hmissing, h.missing, hreached, ne_eq, hne,
      not_false_eq_true, if_true]
  have hdisjoint : Disjoint p.syncer.nodesForTrie.keys (addMissing 14 hashes ∅).1 := by
    refine disjoint_right.2 fun x hx => ?_
    have hmem := (mem_addMissing _ hx).resolve_right (notMem_empty x)
    obtain ⟨d, -, rfl⟩ := List.mem_map.1 hmem
    exact h.lost_notMem hk.le (not_le.1 (hlost d))
  rw [card_union_of_disjoint hdisjoint, hcard, h.keys,
    card_image_of_injective _ (fullHash_injective hasher), Nat.card_Icc, hk]
  norm_num

/-- The range loop on its way through the branches. -/
theorem FullAt.range_branches (h : FullAt hasher 0 p) (hk : k ≤ 286331152) (last : Nat)
    (later : List Bytes) :
    ∃ q, FullAt hasher k q ∧
      range hasher (fullEnv hasher last) 14 ((List.range k).map (fullHash hasher) ++ later) p =
        range hasher (fullEnv hasher last) 14 later q := by
  induction k generalizing later with
  | zero => exact ⟨p, h, rfl⟩
  | succ k ih =>
    obtain ⟨q, hq, hrange⟩ := ih (by omega) (fullHash hasher k :: later)
    obtain ⟨found, hfound, hvisit⟩ := hq.visit_eq (by omega) last
    obtain ⟨next, hnext, hat⟩ := hfound.visitNode_next (by omega) last
    refine ⟨next, hat, ?_⟩
    rw [List.range_succ, List.map_append, List.append_assoc]
    exact hrange.trans (by rw [range, hvisit, hnext])

theorem FullAt.start (hasher : Hasher Digit) (rounds : Nat) :
    FullAt hasher 0 ⟨{ start ∅ none (fullHash hasher 0) with rounds := rounds },
      ∅, ∅, false, false⟩ where
  work := by
    have hdb : WellKeyed hasher ∅ := fun h n hn => by simp at hn
    exact (Covers.start hdb (emptyTrie_fullHash hasher 0) none).work
  keys := by simp [Syncer.start]
  checked _ hmem := absurd hmem (notMem_empty _)
  missing := rfl
  retry := rfl
  db _ _ := lookup_empty _

theorem full_checkIfSynced (hasher : Hasher Digit) (hlast : last = 286331152) :
    ∃ s, checkIfSynced hasher (fullEnv hasher last) 14 1
        (.start ∅ none (fullHash hasher 0)) = some (.ok (false, s)) ∧
      s.nodesForTrie.keys.card = 2 ^ 32 ∧ s.db.lookup (fullHash hasher (16 * last + 1)) = none := by
  obtain ⟨p, hp, hrange⟩ :=
    (FullAt.start hasher 1).range_branches hlast.le last [fullHash hasher last]
  obtain ⟨found, hfound, hvisit⟩ := hp.visit_eq hlast.le last
  obtain ⟨q, hstop, hcard, hnew, hretry, hdb⟩ := hfound.visitNode_stop hlast last
  have horder : (fullEnv hasher last).order 1 =
      (List.range last).map (fullHash hasher) ++ [fullHash hasher last] := by
    simp only [fullEnv, List.range_succ, List.map_append, List.map_cons, List.map_nil]
  have hpass : repeatRange hasher (fullEnv hasher last) 14 1
      ⟨.start ∅ none (fullHash hasher 0), ∅, ∅, true, false⟩ = some (.ok q) := by
    rw [range, hvisit, hstop, ← horder] at hrange
    simp only [repeatRange, Syncer.start, Nat.zero_add] at hrange ⊢
    simp [hrange, hnew]
  refine ⟨{ q.syncer.addMissingNodes q.missingNodes with passes := q.syncer.passes + 1 },
    ?_, ?_, hdb⟩
  · have htimeout : (fullEnv hasher last).timeout q.syncer.passes = false := rfl
    simp [checkIfSynced, hpass, htimeout, hretry]
  · dsimp only [addMissingNodes]
    rw [keys_setAll, hcard]

/-- **`2^32` pending nodes are counted as none**: in the trie of all keys of four bytes, with the
sixteen leaves below one branch missing and a hard cap of fourteen, `StartSyncing` returns `nil`. -/
theorem startSyncing_truncated :
    ∃ (t : PTree) (m : Bytes → Option Bytes) (env : Environment Digit) (s : Syncer Digit),
      Means t m ∧ env.Honest digitHasher ∧
      startSyncing digitHasher env 14 2 ∅ none (rootOf digitHasher t) = some (.ok s) ∧
      ¬ Complete digitHasher (rootOf digitHasher t) s.db := by
  obtain ⟨m, hmeans⟩ := full_means
  obtain ⟨last, hlast⟩ : ∃ last, last = 286331152 := ⟨_, rfl⟩
  obtain ⟨s, hpass, hcard, hdb⟩ := full_checkIfSynced digitHasher hlast
  have hroot : rootOf digitHasher (full 0) = fullHash digitHasher 0 := by
    rw [fullHash_eq_merkle, rootOf_of_ne_nil (full_ne_nil _)]
  refine ⟨full 0, m, fullEnv digitHasher last, s, hmeans, fullEnv_honest, ?_, ?_⟩
  · have hzero : s.requestNodes = 0 := by
      rw [Syncer.requestNodes, hcard]
      rfl
    have hdone : (fullEnv digitHasher last).done = some fun _ => false := rfl
    simp [startSyncing, hroot, emptyTrie_fullHash, hdone, syncLoop, hpass, hzero]
  · intro hcomplete
    rw [hroot] at hcomplete
    obtain ⟨n, hn, -⟩ := hcomplete _ (fullHash_reachable (show 16 * last + 1 ≤ _ by omega))
    rw [hdb] at hn
    cases hn

end Full

end KleverGo.Trie
