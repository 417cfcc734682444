import KleverGo.Trie.PruningGuards

/-!
# Pruning keeps the live state

`Sound` says that the nodes of the last block, and of its parent as long as the last block can be
rolled back, are in the database and guarded.  A hash is `Ready` when it stays guarded once the parent
of the last block is pruned.

* `commitTrie_marking` — what a commit puts into the waiting list;
* `commitBlock_sound`, `rollBackOneBlock_sound` — what one block does;
* `run_keeps_live` — **no run whose commits bring back no root that is being pruned loses a live
  node**;
* `returned_root_lost` — a block that brings back the root of the block two below loses its nodes.
-/

namespace KleverGo.Trie

open Finset StorageManager

/-! ## What a commit marks -/

namespace Ledger

/-- The hashes at a key of the eviction waiting list. -/
abbrev hashes (l : Ledger) (key : EvictionKey) : Finset Bytes :=
  l.tsm.dbEvictionWaitingList.hashes key

abbrev queue (l : Ledger) : List BufferedHash := l.tsm.pruningBuffer

end Ledger

/-- The nodes of a root are in the database, and guarded. -/
structure Kept (tries : Tries) (tsm : StorageManager) (root : Bytes) : Prop where
  stored : ∀ x ∈ tries.nodes root, x ∈ tsm.db
  guarded : ∀ x ∈ tries.nodes root,
    Guarded (fun _ => False) tsm.dbEvictionWaitingList tsm.pruningBuffer x

/-- Where an old root is to be pruned, its eviction as a new root is to be cancelled. -/
def Paired (queue : List BufferedHash) : Prop :=
  ∀ root, pruneOld root ∈ queue → cancelNew root ∈ queue

/-- The state between two steps.  The nodes of the last root are kept, and those of its parent while
the last block can be rolled back.  The old hashes of a root that is about to be pruned are not in
the block above it, and the new hashes of one that may be rolled back are not in the block below. -/
structure Sound (tries : Tries) (l : Ledger) : Prop where
  root : Kept tries l.tsm l.root
  parent : l.final = false → Kept tries l.tsm l.parentRoot
  oldRoot : ∀ x ∈ tries.nodes l.oldRoot,
    Guarded (· = l.oldRoot) l.tsm.dbEvictionWaitingList l.queue x
  root_unpruned : emptyTrie l.root = false → pruneOld l.root ∉ l.queue
  parent_unpruned : l.final = false → emptyTrie l.parentRoot = false →
    pruneOld l.parentRoot ∉ l.queue
  root_apart : l.root ≠ l.parentRoot →
    Disjoint (l.hashes (l.parentRoot, .OldRoot)) (tries.nodes l.root)
  parent_apart : l.final = false → l.parentRoot ≠ l.grandparentRoot →
    Disjoint (l.hashes (l.grandparentRoot, .OldRoot)) (tries.nodes l.parentRoot)
  fresh : l.final = false → l.root ≠ l.parentRoot →
    Disjoint (l.hashes (l.root, .NewRoot)) (tries.nodes l.parentRoot)
  tracked : emptyTrie l.root = false → l.oldRoot = l.root
  tracked_empty : emptyTrie l.root = true → emptyTrie l.parentRoot = false →
    emptyTrie l.oldRoot = true ∨ l.oldRoot = l.parentRoot
  unmarked : ∀ root identifier, emptyTrie root = true → l.hashes (root, identifier) = ∅
  plain : Plain l.queue
  paired : Paired l.queue

/-- A root that a commit may bring: not the root of the block two below, and none that is still
waiting to be evicted as a new root, or for this to be cancelled. -/
def Admissible (l : Ledger) (newRoot : Bytes) : Prop :=
  emptyTrie newRoot = true ∨ newRoot = l.root ∨
    newRoot ≠ l.parentRoot ∧ l.tsm.dbEvictionWaitingList.lookup (newRoot, .NewRoot) = none ∧
      cancelNew newRoot ∉ l.queue

section Marks

variable {tries : Tries} {l : Ledger} {newRoot : Bytes}

theorem emptyTrie_nil : emptyTrie [] = true := by simp [emptyTrie]

theorem commitTrie_queue : (l.commitTrie tries newRoot).queue = l.queue := by
  unfold Ledger.commitTrie markForEviction mark
  split
  · rfl
  · simp only [Ledger.queue]
    split_ifs <;> rfl

theorem commitTrie_blocks : (l.commitTrie tries newRoot).blocks = l.blocks := by
  unfold Ledger.commitTrie
  split <;> rfl

theorem mark_hashes (tsm : StorageManager) (key key' : EvictionKey) (s : Finset Bytes) :
    (tsm.mark key s).dbEvictionWaitingList.hashes key' =
      if (s ≠ ∅ ∧ key.1 ≠ []) ∧ key' = key then s else tsm.dbEvictionWaitingList.hashes key' := by
  unfold mark
  by_cases hmark : s ≠ ∅ ∧ key.1 ≠ []
  · rw [if_pos hmark, WaitingList.hashes, Finmap.lookup_insert_ite, apply_ite (Option.getD · ∅)]
    simp [hmark, WaitingList.hashes]
  · rw [if_neg hmark, if_neg (fun h => hmark h.1)]

variable {root : Bytes}

theorem nodes_sdiff_ne_empty {root' : Bytes} (h : emptyTrie root = false) (hne : root ≠ root') :
    tries.nodes root \ tries.nodes root' ≠ ∅ := by
  rw [ne_eq, sdiff_eq_empty_iff_subset]
  exact fun hsub => hne (tries.eq_of_subset root root' h hsub)

theorem ne_nil_of_emptyTrie (h : emptyTrie root = false) : root ≠ [] := by
  rintro rfl
  simp [emptyTrie] at h

/-- The waiting list after a commit that changes the root. -/
structure Marking (tries : Tries) (l l' : Ledger) (newRoot : Bytes) : Prop where
  new : l'.hashes (newRoot, .NewRoot) = tries.nodes newRoot \ tries.nodes l.oldRoot
  new_other : ∀ root, root ≠ newRoot → l'.hashes (root, .NewRoot) = l.hashes (root, .NewRoot)
  old : emptyTrie l.oldRoot = false →
    l'.hashes (l.oldRoot, .OldRoot) = tries.nodes l.oldRoot \ tries.nodes newRoot
  old_other : ∀ root, root ≠ l.oldRoot ∨ emptyTrie root = true →
    l'.hashes (root, .OldRoot) = l.hashes (root, .OldRoot)

theorem commitTrie_marking (hnew : emptyTrie newRoot = false) (hne : newRoot ≠ l.oldRoot) :
    Marking tries l (l.commitTrie tries newRoot) newRoot := by
  have hhashes : ∀ key, (l.commitTrie tries newRoot).hashes key =
      ((l.tsm.mark (newRoot, .NewRoot) (tries.nodes newRoot \ tries.nodes l.oldRoot)).mark
        (l.oldRoot, .OldRoot)
          (tries.nodes l.oldRoot \ tries.nodes newRoot)).dbEvictionWaitingList.hashes
          key := by
    intro key
    simp only [Ledger.commitTrie, hnew, Bool.false_eq_true, if_false, markForEviction, if_neg hne]
  have hadded : tries.nodes newRoot \ tries.nodes l.oldRoot ≠ ∅ := nodes_sdiff_ne_empty hnew hne
  refine ⟨?_, fun root hroot => ?_, fun hold => ?_, fun root hroot => ?_⟩
  · rw [hhashes, mark_hashes, if_neg (by simp), mark_hashes,
      if_pos ⟨⟨hadded, ne_nil_of_emptyTrie hnew⟩, rfl⟩]
  · rw [hhashes, mark_hashes, if_neg (by simp), mark_hashes, if_neg (by simp [hroot])]
  · rw [hhashes, mark_hashes,
      if_pos ⟨⟨nodes_sdiff_ne_empty hold (Ne.symm hne), ne_nil_of_emptyTrie hold⟩, rfl⟩]
  rw [hhashes, mark_hashes, if_neg, mark_hashes, if_neg (by simp)]
  rintro ⟨⟨hremoved, -⟩, hkey⟩
  obtain rfl : root = l.oldRoot := by simpa using hkey
  rcases hroot with hroot | hroot
  · exact hroot rfl
  · exact hremoved (by rw [tries.nodes_empty _ hroot, empty_sdiff])

/-- A commit of the empty trie, or of the root the trie started from, marks nothing. -/
theorem commitTrie_unmarked (h : emptyTrie newRoot = true ∨ newRoot = l.oldRoot)
    (key : EvictionKey) :
    (l.commitTrie tries newRoot).hashes key = l.hashes key := by
  unfold Ledger.commitTrie
  split
  · rfl
  · next hnew =>
    have heq : newRoot = l.oldRoot := h.resolve_left hnew
    simp only [markForEviction, if_pos heq]

theorem commitTrie_cases :
    (∀ key, (l.commitTrie tries newRoot).hashes key = l.hashes key) ∨
      emptyTrie newRoot = false ∧ newRoot ≠ l.oldRoot ∧
        Marking tries l (l.commitTrie tries newRoot) newRoot := by
  by_cases h : emptyTrie newRoot = true ∨ newRoot = l.oldRoot
  · exact .inl (commitTrie_unmarked h)
  · rw [not_or, Bool.not_eq_true] at h
    exact .inr ⟨h.1, h.2, commitTrie_marking h.1 h.2⟩

theorem mark_db (tsm : StorageManager) (key : EvictionKey) (s : Finset Bytes) :
    (tsm.mark key s).db = tsm.db := by
  unfold mark
  split <;> rfl

theorem commitTrie_db (hnew : emptyTrie newRoot = false) :
    (l.commitTrie tries newRoot).tsm.db =
      l.tsm.db ∪ (tries.nodes newRoot \ tries.nodes l.root) := by
  simp only [Ledger.commitTrie, hnew, Bool.false_eq_true, if_false, markForEviction]
  split
  · rfl
  · rw [mark_db, mark_db]

end Marks

/-! ## One block -/

/-- What is needed of a hash before the parent of the last block is pruned. -/
structure Ready (spared : Bytes → Prop) (l : Ledger) (x : Bytes) : Prop where
  guarded : Guarded spared l.tsm.dbEvictionWaitingList l.queue x
  last : l.parentRoot ≠ l.root → ¬ spared l.parentRoot → x ∈ l.hashes (l.parentRoot, .OldRoot) →
    ∃ new, x ∈ l.hashes (new, .NewRoot) ∧ cancelNew new ∉ l.queue ∧ new ≠ l.parentRoot

section Blocks

variable {tries : Tries} {spared : Bytes → Prop} {l : Ledger} {newRoot x : Bytes}

theorem updateStateStorage_cases (l : Ledger) :
    l.updateStateStorage = l ∨
      l.parentRoot ≠ l.root ∧ l.updateStateStorage =
        { l with tsm := (l.tsm.CancelPrune l.parentRoot .NewRoot).Prune l.parentRoot .OldRoot } := by
  unfold Ledger.updateStateStorage Ledger.parentRoot Ledger.root
  split
  · next heq =>
    simp only [heq, List.headD_cons, List.tail_cons]
    split
    · exact .inl rfl
    · next hne => exact .inr ⟨hne, rfl⟩
  · exact .inl rfl

theorem updateStateStorage_shrinks (l : Ledger) :
    (∀ key, l.updateStateStorage.hashes key ⊆ l.hashes key) ∧
      ∀ b ∈ l.updateStateStorage.queue, b ∈ l.queue ∨
        l.parentRoot ≠ l.root ∧ (b = cancelNew l.parentRoot ∨ b = pruneOld l.parentRoot) := by
  rcases updateStateStorage_cases l with heq | ⟨hne, heq⟩
  · rw [heq]
    exact ⟨fun _ => Finset.Subset.refl _, fun _ hb => .inl hb⟩
  have hcancel : l.tsm.Shrinks (l.tsm.CancelPrune l.parentRoot .NewRoot) [cancelNew l.parentRoot] :=
    CancelPrune_shrinks l.parentRoot .NewRoot
  have hshrinks := hcancel.trans (Prune_shrinks l.parentRoot .OldRoot)
  rw [heq]
  refine ⟨hshrinks.hashes, fun b hb => (hshrinks.buffer b hb).imp_right fun hops => ⟨hne, ?_⟩⟩
  simpa [cancelNew, pruneOld] using hops

theorem Paired.updateStateStorage (h : Paired l.queue) : Paired l.updateStateStorage.queue := by
  rcases updateStateStorage_cases l with heq | ⟨-, heq⟩
  · rw [heq]
    exact h
  intro root hin
  have := h root
  -- a buffer without room for the first operation has none for the second
  rw [heq, Ledger.queue, Prune_buffer] at hin ⊢
  unfold CancelPrune add cancelPrune at hin ⊢
  grind [pruneOld, cancelNew]

theorem plain_finalize (root : Bytes) : Plain [cancelNew root, pruneOld root] := by
  intro root' hin
  simp [cancelNew, pruneOld] at hin

theorem updateStateStorage_guarded (hready : Ready spared l x) :
    Guarded spared l.updateStateStorage.tsm.dbEvictionWaitingList l.updateStateStorage.queue x := by
  rcases updateStateStorage_cases l with heq | ⟨hne, heq⟩
  · rw [heq]
    exact hready.guarded
  · have hall := hready.guarded.finalize (hready.last hne)
    rw [heq]
    exact Prune_old_guarded
      (CancelPrune_guarded (plain_finalize l.parentRoot) hall)

theorem updateStateStorage_mem_db (hplain : Plain l.queue) (hready : Ready (fun _ => False) l x)
    (hdb : x ∈ l.tsm.db) : x ∈ l.updateStateStorage.tsm.db := by
  rcases updateStateStorage_cases l with heq | ⟨hne, heq⟩
  · rw [heq]
    exact hdb
  have hall := hready.guarded.finalize (hready.last hne)
  have hbuffer : Plain ((l.tsm.CancelPrune l.parentRoot .NewRoot).pruningBuffer ++
      [pruneOld l.parentRoot]) := by
    intro root hin
    rcases List.mem_append.1 hin with hin | hin
    · rcases (CancelPrune_shrinks l.parentRoot .NewRoot).buffer _ hin with hin | hin
      · exact hplain root hin
      · simp at hin
    · simp [pruneOld] at hin
  rw [heq]
  refine Prune_old_mem_db hbuffer
    (CancelPrune_guarded (plain_finalize l.parentRoot) hall) ?_
  rw [CancelPrune_db]
  exact hdb

variable {l' : Ledger}

theorem Ready.unmarked (h : Ready spared l x) (hqueue : l'.queue = l.queue)
    (hblocks : l'.blocks = l.blocks) (hhashes : ∀ key, l'.hashes key = l.hashes key) :
    Ready spared l' x := by
  refine ⟨?_, ?_⟩
  · rw [hqueue]
    exact h.guarded.weaken (fun old _ _ hx => (hhashes _).subset hx)
      (fun new hx => (hhashes _).symm.subset hx)
  · simp only [Ledger.parentRoot, Ledger.root, hblocks, hqueue, hhashes]
    exact h.last

variable {root : Bytes}

/-- A spared root need not be spared if it is not pruned, or does not have the hash. -/
theorem Ready.unspare (h : Ready (· = root) l x)
    (hroot : x ∈ l.hashes (root, .OldRoot) → pruneOld root ∉ l.queue ∧
      (root = l.parentRoot → l.parentRoot = l.root)) :
    Ready (fun _ => False) l x := by
  refine ⟨fun before after old hq _ hx => ?_, fun hne _ hx => ?_⟩
  · refine h.guarded before after old hq ?_ hx
    rintro rfl
    exact (hroot hx).1 (by rw [hq]; simp)
  · refine h.last hne ?_ hx
    intro heq
    rw [heq] at hx
    exact hne ((hroot hx).2 heq.symm)

/-- A hash that is new for a root is ready, if that root is not cancelled. -/
theorem Ready.of_new (hx : x ∈ l.hashes (root, .NewRoot)) (hcancel : cancelNew root ∉ l.queue)
    (hparent : root ≠ l.parentRoot) : Ready spared l x := by
  refine ⟨fun before after old hq _ _ => ⟨root, hx, fun hin => hcancel ?_⟩,
    fun _ _ _ => ⟨root, hx, hcancel, hparent⟩⟩
  rw [hq]
  exact List.mem_append_left _ hin

/-- Marks for a new root leave a hash ready, if what is now old is not about to be pruned. -/
theorem Ready.marking (h : Ready spared l x) (hmark : Marking tries l l' newRoot)
    (hqueue : l'.queue = l.queue) (hblocks : l'.blocks = l.blocks)
    (hnone : l.hashes (newRoot, .NewRoot) = ∅)
    (hqueued : ¬ spared l.oldRoot → pruneOld l.oldRoot ∉ l.queue)
    (hparent : ¬ spared l.oldRoot → l.oldRoot = l.parentRoot → l.parentRoot = l.root) :
    Ready spared l' x := by
  have hnew : ∀ new, x ∈ l.hashes (new, .NewRoot) → x ∈ l'.hashes (new, .NewRoot) := by
    intro new hx
    rw [hmark.new_other]
    · exact hx
    · rintro rfl
      rw [hnone] at hx
      exact absurd hx (notMem_empty _)
  have hroot : l'.root = l.root := by rw [Ledger.root, hblocks, Ledger.root]
  have hparentRoot : l'.parentRoot = l.parentRoot := by
    rw [Ledger.parentRoot, hblocks, Ledger.parentRoot]
  refine ⟨?_, ?_⟩
  · rw [hqueue]
    refine h.guarded.weaken (fun old hin hspared hx => ?_) hnew
    have hne : old ≠ l.oldRoot := by
      rintro rfl
      exact hqueued hspared hin
    exact (hmark.old_other old (.inl hne)).subset hx
  · rw [hroot, hparentRoot, hqueue]
    intro hne hspared hx
    have hother : l.parentRoot ≠ l.oldRoot := by
      intro heq
      exact hne (hparent (heq ▸ hspared) heq.symm)
    rw [hmark.old_other _ (.inl hother)] at hx
    obtain ⟨new, hx', hcancel⟩ := h.last hne hspared hx
    exact ⟨new, hnew new hx', hcancel⟩

theorem Sound.root_ready (h : Sound tries l) (hx : x ∈ tries.nodes l.root) :
    Ready (fun _ => False) l x := by
  refine ⟨h.root.guarded x hx, fun hne _ hold => ?_⟩
  exact absurd hx (disjoint_left.1 (h.root_apart (Ne.symm hne)) hold)

theorem Sound.oldRoot_ready (h : Sound tries l) (hx : x ∈ tries.nodes l.oldRoot) :
    Ready (· = l.oldRoot) l x := by
  refine ⟨h.oldRoot x hx, fun hne hspared hold => ?_⟩
  have hparent : emptyTrie l.parentRoot = false := by
    by_contra hempty
    rw [h.unmarked _ _ (by simpa using hempty)] at hold
    exact absurd hold (notMem_empty _)
  cases hroot : emptyTrie l.root with
  | false =>
    rw [h.tracked hroot] at hx
    exact absurd hx (disjoint_left.1 (h.root_apart (Ne.symm hne)) hold)
  | true =>
    rcases h.tracked_empty hroot hparent with hempty | heq
    · rw [tries.nodes_empty _ hempty] at hx
      exact absurd hx (notMem_empty _)
    · exact absurd heq.symm hspared

theorem emptyTrie_of_mem (hx : x ∈ tries.nodes root) : emptyTrie root = false := by
  by_contra hempty
  rw [tries.nodes_empty root (by simpa using hempty)] at hx
  exact absurd hx (notMem_empty _)

section
variable (hadm : Admissible l newRoot) (h : Sound tries l) (hnew : emptyTrie newRoot = false)
include hadm h hnew

theorem Admissible.unseen (hne : newRoot ≠ l.oldRoot) :
    newRoot ≠ l.parentRoot ∧ l.hashes (newRoot, .NewRoot) = ∅ ∧ cancelNew newRoot ∉ l.queue := by
  rcases hadm with hempty | rfl | ⟨hparent, hnone, hcancel⟩
  · rw [hnew] at hempty
    cases hempty
  · exact absurd (h.tracked hnew).symm hne
  · exact ⟨hparent, by rw [Ledger.hashes, WaitingList.hashes, hnone]; rfl, hcancel⟩

theorem Admissible.unpruned :
    pruneOld newRoot ∉ l.queue ∧ (newRoot = l.parentRoot → l.parentRoot = l.root) := by
  rcases hadm with hempty | rfl | ⟨hparent, -, hcancel⟩
  · rw [hnew] at hempty
    cases hempty
  · exact ⟨h.root_unpruned hnew, Eq.symm⟩
  · exact ⟨mt (h.paired newRoot) hcancel, fun heq => absurd heq hparent⟩

end

theorem commitTrie_root_ready (h : Sound tries l) (hadm : Admissible l newRoot)
    (hx : x ∈ tries.nodes l.root) : Ready (fun _ => False) (l.commitTrie tries newRoot) x := by
  have hready := h.root_ready hx
  have hroot := emptyTrie_of_mem hx
  rcases commitTrie_cases with hsame | ⟨hnew, hne, hmark⟩
  · exact hready.unmarked commitTrie_queue commitTrie_blocks hsame
  obtain ⟨-, hnone, -⟩ := hadm.unseen h hnew hne
  refine hready.marking hmark commitTrie_queue commitTrie_blocks hnone (fun _ => ?_)
    (fun _ heq => ?_)
  · rw [h.tracked hroot]
    exact h.root_unpruned hroot
  · rw [← heq, h.tracked hroot]

theorem commitTrie_newRoot_ready (h : Sound tries l) (hadm : Admissible l newRoot)
    (hx : x ∈ tries.nodes newRoot) : Ready (fun _ => False) (l.commitTrie tries newRoot) x := by
  have hnew := emptyTrie_of_mem hx
  by_cases heq : newRoot = l.oldRoot
  · -- the trie went back to the root it still takes note of
    have hready : Ready (· = l.oldRoot) l x := h.oldRoot_ready (heq ▸ hx)
    obtain ⟨hprune, hparent⟩ := hadm.unpruned h hnew
    refine Ready.unmarked (hready.unspare fun _ => ?_) commitTrie_queue commitTrie_blocks
      (commitTrie_unmarked (.inr heq))
    rw [← heq]
    exact ⟨hprune, hparent⟩
  · obtain ⟨hparent, hnone, hcancel⟩ := hadm.unseen h hnew heq
    have hmark : Marking tries l (l.commitTrie tries newRoot) newRoot := commitTrie_marking hnew heq
    by_cases hold : x ∈ tries.nodes l.oldRoot
    · -- a node the old trie has too is not among its old hashes
      have hready := (h.oldRoot_ready hold).marking hmark commitTrie_queue commitTrie_blocks hnone
        (fun hspared => absurd rfl hspared) (fun hspared => absurd rfl hspared)
      refine hready.unspare fun hin => ?_
      rw [hmark.old (emptyTrie_of_mem hold)] at hin
      exact absurd hx (mem_sdiff.1 hin).2
    · exact Ready.of_new (by rw [hmark.new]; exact mem_sdiff.2 ⟨hx, hold⟩)
        (by rw [commitTrie_queue]; exact hcancel)
        (by rw [Ledger.parentRoot, commitTrie_blocks]; exact hparent)

theorem commitTrie_stored (h : Sound tries l)
    (hx : x ∈ tries.nodes l.root ∨ x ∈ tries.nodes newRoot) :
    x ∈ (l.commitTrie tries newRoot).tsm.db := by
  cases hnew : emptyTrie newRoot with
  | true =>
    rw [tries.nodes_empty _ hnew] at hx
    rw [Ledger.commitTrie, if_pos hnew]
    exact h.root.stored x (hx.resolve_right (notMem_empty _))
  | false =>
    rw [commitTrie_db hnew, mem_union, mem_sdiff]
    by_cases hroot : x ∈ tries.nodes l.root
    · exact .inl (h.root.stored x hroot)
    · exact .inr ⟨hx.resolve_left hroot, hroot⟩

theorem commitTrie_oldRoot :
    (l.commitTrie tries newRoot).oldRoot = if emptyTrie newRoot then l.oldRoot else newRoot := by
  unfold Ledger.commitTrie
  split <;> rfl

theorem commitTrie_oldRoot_ready (h : Sound tries l) (hadm : Admissible l newRoot)
    (hx : x ∈ tries.nodes (l.commitTrie tries newRoot).oldRoot) :
    Ready (· = (l.commitTrie tries newRoot).oldRoot) (l.commitTrie tries newRoot) x := by
  rw [commitTrie_oldRoot] at hx ⊢
  cases hnew : emptyTrie newRoot with
  | true =>
    simp only [hnew, if_true] at hx ⊢
    exact (h.oldRoot_ready hx).unmarked commitTrie_queue commitTrie_blocks
      (commitTrie_unmarked (.inl hnew))
  | false =>
    simp only [hnew, Bool.false_eq_true, if_false] at hx ⊢
    have hready := commitTrie_newRoot_ready h hadm hx
    exact ⟨hready.guarded.spare, fun hne _ hold => hready.last hne id hold⟩

theorem commitTrie_hashes_empty (h : Sound tries l) (hroot : emptyTrie root = true)
    (identifier : TriePruningIdentifier) :
    (l.commitTrie tries newRoot).hashes (root, identifier) = ∅ := by
  rcases commitTrie_cases with hsame | ⟨hnew, -, hmark⟩
  · rw [hsame, h.unmarked _ _ hroot]
  cases identifier with
  | OldRoot => rw [hmark.old_other root (.inr hroot), h.unmarked _ _ hroot]
  | NewRoot =>
    rw [hmark.new_other root, h.unmarked _ _ hroot]
    rintro rfl
    rw [hroot] at hnew
    cases hnew

/-- The hashes marked by a commit above a root that is not empty. -/
theorem commitTrie_apart (h : Sound tries l) (hne : newRoot ≠ l.root) :
    Disjoint ((l.commitTrie tries newRoot).hashes (l.root, .OldRoot)) (tries.nodes newRoot) ∧
      Disjoint ((l.commitTrie tries newRoot).hashes (newRoot, .NewRoot)) (tries.nodes l.root) := by
  cases hnew : emptyTrie newRoot with
  | true =>
    rw [tries.nodes_empty _ hnew, commitTrie_hashes_empty h hnew]
    exact ⟨disjoint_empty_right _, disjoint_empty_left _⟩
  | false =>
    cases hroot : emptyTrie l.root with
    | true =>
      rw [tries.nodes_empty _ hroot, commitTrie_hashes_empty h hroot]
      exact ⟨disjoint_empty_left _, disjoint_empty_right _⟩
    | false =>
      have htracked := h.tracked hroot
      have hmarking : Marking tries l (l.commitTrie tries newRoot) newRoot :=
        commitTrie_marking hnew (by rw [htracked]; exact hne)
      have hold := hmarking.old (by rw [htracked]; exact hroot)
      have hfresh := hmarking.new
      rw [htracked] at hold hfresh
      rw [hold, hfresh]
      exact ⟨sdiff_disjoint, sdiff_disjoint⟩

theorem commitTrie_parent_apart (h : Sound tries l) (hne : l.root ≠ l.parentRoot) :
    Disjoint ((l.commitTrie tries newRoot).hashes (l.parentRoot, .OldRoot))
      (tries.nodes l.root) := by
  cases hroot : emptyTrie l.root with
  | true =>
    rw [tries.nodes_empty _ hroot]
    exact disjoint_empty_right _
  | false =>
    rcases commitTrie_cases with hsame | ⟨-, -, hmark⟩
    · rw [hsame]
      exact h.root_apart hne
    have hother : l.parentRoot ≠ l.oldRoot := by
      rw [h.tracked hroot]
      exact Ne.symm hne
    rw [hmark.old_other _ (.inl hother)]
    exact h.root_apart hne

theorem updateStateStorage_rest (l : Ledger) :
    l.updateStateStorage.blocks = l.blocks ∧ l.updateStateStorage.oldRoot = l.oldRoot := by
  rcases updateStateStorage_cases l with heq | ⟨-, heq⟩ <;> rw [heq] <;> exact ⟨rfl, rfl⟩

/-- A commit keeps the nodes of the new block and of the one it is built on. -/
theorem commitBlock_sound (h : Sound tries l) (hadm : Admissible l newRoot) :
    Sound tries (l.commitBlock tries newRoot) := by
  set marked := l.commitTrie tries newRoot with hmarked
  have hblocks : marked.updateStateStorage.blocks = l.blocks :=
    (updateStateStorage_rest _).1.trans commitTrie_blocks
  have hold : marked.updateStateStorage.oldRoot =
      if emptyTrie newRoot then l.oldRoot else newRoot :=
    (updateStateStorage_rest _).2.trans commitTrie_oldRoot
  have hqueue : marked.queue = l.queue := commitTrie_queue
  have hroot : (l.commitBlock tries newRoot).root = newRoot := rfl
  have hparent : (l.commitBlock tries newRoot).parentRoot = l.root := by
    simp only [Ledger.parentRoot, Ledger.commitBlock, List.tail_cons, Ledger.root, ← hmarked,
      hblocks]
  have hgrandparent : (l.commitBlock tries newRoot).grandparentRoot = l.parentRoot := by
    simp only [Ledger.grandparentRoot, Ledger.commitBlock, List.tail_cons, Ledger.parentRoot,
      ← hmarked, hblocks]
  have hmarkedRoot : marked.root = l.root := by
    rw [Ledger.root, Ledger.root, hmarked, commitTrie_blocks]
  have hmarkedParent : marked.parentRoot = l.parentRoot := by
    rw [Ledger.parentRoot, Ledger.parentRoot, hmarked, commitTrie_blocks]
  obtain ⟨hhashes, hbuffer⟩ := updateStateStorage_shrinks marked
  rw [hmarkedRoot, hmarkedParent, hqueue] at hbuffer
  have hplain : Plain marked.queue := by
    rw [hqueue]
    exact h.plain
  -- an old root is pruned from the buffer if it was there before, or is the block below the last
  have hunpruned : ∀ root, pruneOld root ∉ l.queue → (root = l.parentRoot → l.parentRoot = l.root) →
      pruneOld root ∉ marked.updateStateStorage.queue := by
    intro root hqueued hlast hin
    rcases hbuffer _ hin with hin | ⟨hne, hin | hin⟩
    · exact hqueued hin
    · simp [pruneOld, cancelNew] at hin
    · exact hne (hlast (by simpa [pruneOld] using hin))
  have hkept : ∀ root, (∀ x ∈ tries.nodes root, x ∈ marked.tsm.db) →
      (∀ x ∈ tries.nodes root, Ready (fun _ => False) marked x) →
      Kept tries marked.updateStateStorage.tsm root := fun root hdb hready =>
    ⟨fun x hx => updateStateStorage_mem_db hplain (hready x hx) (hdb x hx),
      fun x hx => updateStateStorage_guarded (hready x hx)⟩
  exact
    { root := hkept newRoot (fun x hx => commitTrie_stored h (.inr hx))
        fun x hx => commitTrie_newRoot_ready h hadm hx
      parent := fun _ => by
        rw [hparent]
        exact hkept l.root (fun x hx => commitTrie_stored h (.inl hx))
          fun x hx => commitTrie_root_ready h hadm hx
      oldRoot := fun x hx => by
        have hready := commitTrie_oldRoot_ready h hadm
          (x := x) (by rw [commitTrie_oldRoot, ← hold]; exact hx)
        have hguarded := updateStateStorage_guarded hready
        rw [commitTrie_oldRoot, ← hold] at hguarded
        exact hguarded
      root_unpruned := fun hnew =>
        hunpruned newRoot (hadm.unpruned h hnew).1 (hadm.unpruned h hnew).2
      parent_unpruned := fun _ hne => by
        rw [hparent] at hne ⊢
        exact hunpruned l.root (h.root_unpruned hne) Eq.symm
      root_apart := fun hne => by
        rw [hroot, hparent] at hne ⊢
        exact (commitTrie_apart h hne).1.mono_left (hhashes _)
      parent_apart := fun _ hne => by
        rw [hparent, hgrandparent] at hne ⊢
        exact (commitTrie_parent_apart h hne).mono_left (hhashes _)
      fresh := fun _ hne => by
        rw [hroot, hparent] at hne ⊢
        exact (commitTrie_apart h hne).2.mono_left (hhashes _)
      tracked := fun hnew => by
        rw [hroot] at hnew ⊢
        exact hold.trans (by simp [hnew])
      tracked_empty := fun hnew hne => by
        rw [hroot] at hnew
        rw [hparent] at hne ⊢
        exact .inr (hold.trans (by simp [hnew, h.tracked hne]))
      unmarked := fun root identifier hempty =>
        subset_empty.1 ((hhashes _).trans (commitTrie_hashes_empty h hempty identifier).subset)
      plain := fun root hin => by
        rcases hbuffer _ hin with hin | ⟨-, hin | hin⟩
        · exact h.plain root hin
        · simp [cancelNew] at hin
        · simp [pruneOld] at hin
      paired := (hqueue ▸ h.paired : Paired marked.queue).updateStateStorage }

/-- `PruneStateOnRollback` -/
def rolledBack (l : Ledger) : StorageManager :=
  if l.root = l.parentRoot then l.tsm
  else (l.tsm.CancelPrune l.parentRoot .OldRoot).Prune l.root .NewRoot

theorem rollBackOneBlock_cases (l : Ledger) :
    l.rollBackOneBlock = l ∨
      l.final = false ∧ l.rollBackOneBlock =
        { tsm := rolledBack l
          blocks := l.parentRoot :: l.blocks.tail.tail
          oldRoot := if emptyTrie l.parentRoot then [] else l.parentRoot
          final := true } := by
  unfold Ledger.rollBackOneBlock rolledBack Ledger.parentRoot Ledger.root
  split
  · next heq =>
    simp only [heq, List.headD_cons, List.tail_cons]
    split
    · exact .inl rfl
    · next hback =>
      rw [not_or, Bool.not_eq_true] at hback
      refine .inr ⟨hback.1, ?_⟩
      split <;> rfl
  · exact .inl rfl

theorem rolledBack_shrinks (l : Ledger) :
    l.tsm.Shrinks (rolledBack l) [cancelOld l.parentRoot] := by
  unfold rolledBack
  split
  · exact ⟨fun _ => Finset.Subset.refl _, fun _ hb => .inl hb⟩
  · have hcancel : l.tsm.Shrinks (l.tsm.CancelPrune l.parentRoot .OldRoot)
      [cancelOld l.parentRoot] :=
      CancelPrune_shrinks l.parentRoot .OldRoot
    simpa using hcancel.trans (Prune_shrinks l.root .NewRoot)

theorem Paired.rolledBack (h : Paired l.queue) : Paired (rolledBack l).pruningBuffer := by
  unfold Trie.rolledBack
  split
  · exact h
  intro root hin
  have := h root
  rw [Prune_buffer] at hin ⊢
  unfold CancelPrune add cancelPrune at hin ⊢
  grind [pruneOld, cancelNew]

/-- The hashes that are new for the block rolled back are not in the block below. -/
theorem rolledBack_kept (h : Sound tries l) (hfinal : l.final = false) :
    Kept tries (rolledBack l) l.parentRoot := by
  have hkept := h.parent hfinal
  unfold rolledBack
  split
  · exact hkept
  next hne =>
  have hcancel : l.tsm.Shrinks (l.tsm.CancelPrune l.parentRoot .OldRoot) [cancelOld l.parentRoot] :=
    CancelPrune_shrinks l.parentRoot .OldRoot
  have hguarded : ∀ x ∈ tries.nodes l.parentRoot, Guarded (fun _ => False)
      (l.tsm.CancelPrune l.parentRoot .OldRoot).dbEvictionWaitingList
      (l.tsm.CancelPrune l.parentRoot .OldRoot).pruningBuffer x := by
    intro x hx
    have hqueued : Guarded (fun _ => False) l.tsm.dbEvictionWaitingList
        (l.queue ++ [cancelOld l.parentRoot]) x :=
      (hkept.guarded x hx).concat fun old hold => by simp [cancelOld, pruneOld] at hold
    have hplain : Plain [cancelOld l.parentRoot] := fun root hin => by simp [cancelOld] at hin
    simpa using CancelPrune_guarded hplain hqueued
  have hplain : Plain (l.tsm.CancelPrune l.parentRoot .OldRoot).pruningBuffer := by
    intro root hin
    rcases hcancel.buffer _ hin with hin | hin
    · exact h.plain root hin
    · simp [cancelOld] at hin
  have hfresh : ∀ x ∈ tries.nodes l.parentRoot,
      x ∉ (l.tsm.CancelPrune l.parentRoot .OldRoot).dbEvictionWaitingList.hashes
        (l.root, .NewRoot) :=
    fun x hx hin => disjoint_left.1 (h.fresh hfinal hne) (hcancel.hashes _ hin) hx
  refine ⟨fun x hx => ?_, fun x hx =>
    Prune_new_guarded (hguarded x hx) (hfresh x hx)⟩
  refine Prune_new_mem_db hplain (hguarded x hx) (hfresh x hx) ?_
  rw [CancelPrune_db]
  exact hkept.stored x hx

theorem rollBackOneBlock_sound (h : Sound tries l) : Sound tries l.rollBackOneBlock := by
  rcases rollBackOneBlock_cases l with heq | ⟨hfinal, heq⟩
  · rw [heq]
    exact h
  have hkept := rolledBack_kept h hfinal
  have hshrinks := rolledBack_shrinks l
  rw [heq]
  refine
    { root := hkept
      parent := fun hnot => (by cases hnot)
      oldRoot := fun x hx => ?_
      root_unpruned := fun hne hin => ?_
      parent_unpruned := fun hnot => (by cases hnot)
      root_apart := fun hne => (h.parent_apart hfinal hne).mono_left (hshrinks.hashes _)
      parent_apart := fun hnot => (by cases hnot)
      fresh := fun hnot => (by cases hnot)
      tracked := fun hne => by simp only [Ledger.root, List.headD_cons] at hne ⊢; simp [hne]
      tracked_empty := fun hempty _ => ?_
      unmarked := fun root identifier hempty =>
        subset_empty.1 ((hshrinks.hashes _).trans (h.unmarked root identifier hempty).subset)
      plain := fun root hin => ?_
      paired := h.paired.rolledBack }
  · -- the trie is recreated from the root of the block below
    cases hempty : emptyTrie l.parentRoot with
    | true =>
      simp only [hempty, if_true, tries.nodes_empty [] emptyTrie_nil] at hx
      exact absurd hx (notMem_empty _)
    | false =>
      simp only [hempty, Bool.false_eq_true, if_false] at hx
      exact (hkept.guarded x hx).spare
  · rcases hshrinks.buffer _ hin with hin | hin
    · exact h.parent_unpruned hfinal hne hin
    · simp [cancelOld, pruneOld] at hin
  · simp only [Ledger.root, List.headD_cons] at hempty
    simp [hempty, emptyTrie_nil]
  · rcases hshrinks.buffer _ hin with hin | hin
    · exact h.plain root hin
    · simp [cancelOld] at hin

end Blocks

/-! ## Runs -/

section Runs

variable {tries : Tries} {l : Ledger}

theorem genesis_sound (tries : Tries) (root : Bytes) (pruningBufferLen : Nat) :
    Sound tries (Ledger.genesis tries root pruningBufferLen) where
  root := ⟨fun _ hx => hx, fun _ _ => Guarded.nil⟩
  parent h := (by cases h)
  oldRoot _ _ := Guarded.nil
  root_unpruned _ := List.not_mem_nil
  parent_unpruned h := (by cases h)
  root_apart _ := disjoint_empty_left _
  parent_apart h := (by cases h)
  fresh h := (by cases h)
  tracked h := by
    simp only [Ledger.root, Ledger.genesis, List.headD_cons] at h ⊢
    simp [h]
  tracked_empty h := by
    simp only [Ledger.root, Ledger.genesis, List.headD_cons] at h ⊢
    simp [h, emptyTrie_nil]
  unmarked _ _ _ := rfl
  plain _ := List.not_mem_nil
  paired _ hin := absurd hin List.not_mem_nil

/-- Every commit of the run brings an admissible root. -/
def Admits (tries : Tries) : Ledger → List PruningStep → Prop
  | _, [] => True
  | l, .commit newRoot :: steps => Admissible l newRoot ∧
    Admits tries (l.commitBlock tries newRoot) steps
  | l, step :: steps => Admits tries (l.step tries step) steps

instance (l : Ledger) (newRoot : Bytes) : Decidable (Admissible l newRoot) :=
  inferInstanceAs (Decidable (_ ∨ _ ∨ _ ∧ _ ∧ _))

instance decidableAdmits (tries : Tries) :
    ∀ (l : Ledger) (steps : List PruningStep), Decidable (Admits tries l steps)
  | _, [] => inferInstanceAs (Decidable True)
  | l, .commit newRoot :: steps =>
    have := decidableAdmits tries (l.commitBlock tries newRoot) steps
    inferInstanceAs (Decidable (_ ∧ _))
  | l, .rollBack :: steps => decidableAdmits tries (l.step tries .rollBack) steps
  | l, .enter :: steps => decidableAdmits tries (l.step tries .enter) steps
  | l, .exit :: steps => decidableAdmits tries (l.step tries .exit) steps

theorem Sound.blocking (h : Sound tries l) (ops : UInt32) :
    Sound tries { l with tsm := { l.tsm with pruningBlockingOps := ops } } :=
  { h with
    root := ⟨h.root.stored, h.root.guarded⟩
    parent := fun hfinal => ⟨(h.parent hfinal).stored, (h.parent hfinal).guarded⟩ }

theorem exit_sound (h : Sound tries l) : Sound tries (l.step tries .exit) := by
  rw [Ledger.step, exitPruningBufferingMode]
  split
  · exact h
  · exact h.blocking _

theorem run_sound (h : Sound tries l) (steps : List PruningStep) (hadm : Admits tries l steps) :
    Sound tries (l.run tries steps) := by
  induction steps generalizing l with
  | nil => exact h
  | cons step steps ih =>
    cases step with
    | commit newRoot => exact ih (commitBlock_sound h hadm.1) hadm.2
    | rollBack => exact ih (rollBackOneBlock_sound h) hadm
    | enter => exact ih (h.blocking _) hadm
    | exit => exact ih (exit_sound h) hadm

/-- **Pruning keeps the live state.**  In every run whose commits bring back no root that is two
blocks below, still waiting as a new root or for this to be cancelled, the nodes of the last block
are in the database, and those of its parent unless the last block is final. -/
theorem run_keeps_live (tries : Tries) (root : Bytes) (pruningBufferLen : Nat)
    (steps : List PruningStep)
    (hadm : Admits tries (Ledger.genesis tries root pruningBufferLen) steps) :
    let l := (Ledger.genesis tries root pruningBufferLen).run tries steps
    tries.nodes l.root ⊆ l.tsm.db ∧ (l.final = false → tries.nodes l.parentRoot ⊆ l.tsm.db) := by
  have h := run_sound (genesis_sound tries root pruningBufferLen) steps hadm
  exact ⟨fun x hx => h.root.stored x hx, fun hfinal x hx => (h.parent hfinal).stored x hx⟩

/-- Each root with a node of its own below it, and a leaf that some roots share. -/
def ownNodes : Tries where
  nodes root := if emptyTrie root then ∅ else
    {root, root ++ [0]} ∪ if root.length = 1 ∧ root ≠ [2] then {[0, 0]} else ∅
  nodes_empty root h := by simp [h]
  eq_of_subset root root' h hsub := by
    have hroot := hsub (show root ∈ _ by simp [h])
    have hbelow := hsub (show root ++ [0] ∈ _ by simp [h])
    split at hroot
    · exact absurd hroot (notMem_empty _)
    next hempty =>
    rw [if_neg hempty] at hbelow
    simp only [mem_union, mem_insert, mem_singleton] at hroot hbelow
    have hlength : ∀ other, root ++ [0] = other → root.length + 1 = other.length := by
      rintro _ rfl
      simp
    grind

/-- A rollback, a snapshot and a return to a root pruned long ago. -/
theorem run_keeps_live_ownNodes :
    let steps := [PruningStep.commit [2], .commit [3], .rollBack, .enter, .commit [4], .commit [5],
      .exit, .commit [6], .commit [7], .commit [2]]
    let l := (Ledger.genesis ownNodes [1] 10).run ownNodes steps
    Admits ownNodes (Ledger.genesis ownNodes [1] 10) steps ∧
      ownNodes.nodes l.root ⊆ l.tsm.db ∧
        (l.final = false → ownNodes.nodes l.parentRoot ⊆ l.tsm.db) := by
  have hadm : Admits ownNodes (Ledger.genesis ownNodes [1] 10)
      [.commit [2], .commit [3], .rollBack, .enter, .commit [4], .commit [5], .exit, .commit [6],
        .commit [7], .commit [2]] := by
    decide +kernel
  exact ⟨hadm, run_keeps_live ownNodes [1] 10 _ hadm⟩

def sampleLedger (pruningBufferLen : Nat) (steps : List PruningStep) : Ledger :=
  (Ledger.genesis ownNodes [1] pruningBufferLen).run ownNodes steps

/-- The last root loses a node when it comes back from two blocks below, when its pruning is buffered,
and when it is still waiting as a new root because its cancellation did not fit into the buffer.  And
a block that becomes the last one by a rollback has a parent that was pruned. -/
theorem returned_root_lost :
    (∀ l ∈ [sampleLedger 10 [.commit [2], .commit [1]],
        sampleLedger 10 [.commit [2], .enter, .commit [3], .exit, .commit [1]],
        sampleLedger 2 [.commit [2], .enter, .commit [3], .commit [4], .commit [5], .commit [3],
          .exit, .commit [6]]],
      ¬ ownNodes.nodes l.root ⊆ l.tsm.db) ∧
    ∀ l ∈ [sampleLedger 10 [.commit [2], .commit [3], .rollBack]],
      ¬ ownNodes.nodes l.parentRoot ⊆ l.tsm.db := by
  decide +kernel

end Runs

end KleverGo.Trie
