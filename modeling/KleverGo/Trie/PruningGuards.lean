import KleverGo.Trie.Pruning

/-!
# What a pruning request keeps

A hash is `Guarded` when every buffered pruning that would remove it finds, once its turn comes, the
hash among the new hashes of some root.

* `resolve_guarded`, `resolve_mem_db` — one operation of the buffer leaves a guarded hash guarded and
  in the database;
* `CancelPrune_guarded`, `Prune_old_guarded`, `Prune_new_guarded` — and so does one request;
* `Shrinks` — a request marks nothing, and buffers at most itself.
-/

namespace KleverGo.Trie

open List WaitingList

/-! ## The waiting list -/

namespace WaitingList

variable (w : WaitingList) (key key' : EvictionKey)

theorem hashes_erase : hashes (w.erase key) key' = if key' = key then ∅ else w.hashes key' := by
  unfold hashes
  rw [Finmap.lookup_erase_ite]
  split <;> rfl

theorem hashes_erase_subset : hashes (w.erase key) key' ⊆ w.hashes key' := by
  rw [hashes_erase]
  split
  · exact Finset.empty_subset _
  · exact Finset.Subset.refl _

variable {w}

theorem shouldKeepHash_of_new {x root : Bytes} (h : x ∈ w.hashes (root, .NewRoot))
    (identifier : TriePruningIdentifier) : w.shouldKeepHash x identifier = true := by
  refine decide_eq_true ⟨(root, .NewRoot), ?_, by simp, h⟩
  rw [Finmap.mem_keys]
  by_contra hmem
  rw [hashes, Finmap.lookup_eq_none.2 hmem] at h
  exact absurd h (Finset.notMem_empty _)

end WaitingList

/-! ## Guarded hashes -/

def pruneOld (root : Bytes) : BufferedHash := ⟨(root, .OldRoot), .prune⟩

def cancelOld (root : Bytes) : BufferedHash := ⟨(root, .OldRoot), .cancelPrune⟩

def cancelNew (root : Bytes) : BufferedHash := ⟨(root, .NewRoot), .cancelPrune⟩

/-- Whenever an operation of the queue prunes an old root, other than a spared one, that has the
hash, the hash is new for a root that is not cancelled before. -/
def Guarded (spared : Bytes → Prop) (w : WaitingList) (queue : List BufferedHash) (x : Bytes) :
    Prop :=
  ∀ before after old, queue = before ++ pruneOld old :: after → ¬ spared old →
    x ∈ w.hashes (old, .OldRoot) → ∃ new, x ∈ w.hashes (new, .NewRoot) ∧ cancelNew new ∉ before

section Guarded

variable {spared : Bytes → Prop} {w : WaitingList} {queue : List BufferedHash} {x : Bytes}

theorem Guarded.nil : Guarded spared w [] x := by
  intro before after old h
  simp at h

theorem Guarded.spare (h : Guarded (fun _ => False) w queue x) : Guarded spared w queue x :=
  fun before after old hq _ hx => h before after old hq id hx

section
variable (h : Guarded spared w queue x)
include h

theorem Guarded.sublist {queue' : List BufferedHash} (hsub : queue'.Sublist queue) :
    Guarded spared w queue' x := by
  intro before after old hq hspared hx
  rw [hq, append_sublist_iff] at hsub
  obtain ⟨front, back, rfl, hfront, hback⟩ := hsub
  obtain ⟨head, tail, rfl, hmem, -⟩ := cons_sublist_iff.1 hback
  obtain ⟨s, t, rfl⟩ := append_of_mem hmem
  obtain ⟨new, hnew, hcancel⟩ := h (front ++ s) (t ++ tail) old (by simp) hspared hx
  exact ⟨new, hnew, fun hin => hcancel (mem_append_left _ (hfront.subset hin))⟩

/-- One operation more: if it prunes an old root, the hash is new for a root not cancelled yet. -/
theorem Guarded.concat {b : BufferedHash}
    (hlast : ∀ old, b = pruneOld old → ¬ spared old → x ∈ w.hashes (old, .OldRoot) →
      ∃ new, x ∈ w.hashes (new, .NewRoot) ∧ cancelNew new ∉ queue) :
    Guarded spared w (queue ++ [b]) x := by
  intro before after old hq hspared hx
  rcases eq_nil_or_concat after with rfl | ⟨after', last, rfl⟩
  · obtain ⟨rfl, hb⟩ := append_inj' hq rfl
    exact hlast old (List.cons.inj hb).1 hspared hx
  have hq' : queue ++ [b] = (before ++ pruneOld old :: after') ++ [last] := by
    rw [hq]
    simp
  obtain ⟨hqueue, -⟩ := append_inj' hq' rfl
  exact h before after' old hqueue hspared hx

theorem Guarded.finalize {root : Bytes} (hlast : ¬ spared root → x ∈ w.hashes (root, .OldRoot) →
      ∃ new, x ∈ w.hashes (new, .NewRoot) ∧ cancelNew new ∉ queue ∧ new ≠ root) :
    Guarded spared w (queue ++ [cancelNew root, pruneOld root]) x := by
  have hcancel : Guarded spared w (queue ++ [cancelNew root]) x :=
    h.concat fun old hold => by simp [cancelNew, pruneOld] at hold
  have hboth := hcancel.concat (b := pruneOld root) fun old hold hspared hx => by
    obtain rfl : root = old := by simpa [pruneOld] using hold
    obtain ⟨new, hnew, hqueue, hne⟩ := hlast hspared hx
    refine ⟨new, hnew, fun hin => ?_⟩
    rcases mem_append.1 hin with hin | hin
    · exact hqueue hin
    · exact hne (by simpa [cancelNew] using hin)
  simpa using hboth

/-- Fewer old hashes, and all the new ones but those of a root without the hash. -/
theorem Guarded.weaken {w' : WaitingList}
    (hold : ∀ old, pruneOld old ∈ queue → ¬ spared old → x ∈ w'.hashes (old, .OldRoot) →
      x ∈ w.hashes (old, .OldRoot))
    (hnew : ∀ new, x ∈ w.hashes (new, .NewRoot) → x ∈ w'.hashes (new, .NewRoot)) :
    Guarded spared w' queue x := by
  intro before after old hq hspared hx
  have hmem : pruneOld old ∈ queue := by simp [hq]
  obtain ⟨new, hx', hcancel⟩ := h before after old hq hspared (hold old hmem hspared hx)
  exact ⟨new, hnew new hx', hcancel⟩

end

end Guarded

/-! ## One request -/

/-- No new root is pruned from the buffer. -/
def Plain (queue : List BufferedHash) : Prop :=
  ∀ root, (⟨(root, .NewRoot), .prune⟩ : BufferedHash) ∉ queue

namespace StorageManager

variable {spared : Bytes → Prop} {tsm : StorageManager} {queue : List BufferedHash} {x : Bytes}

theorem resolve_hashes_subset (b : BufferedHash) (key : EvictionKey) :
    (tsm.resolveBufferedHash b).dbEvictionWaitingList.hashes key ⊆
      tsm.dbEvictionWaitingList.hashes key := by
  unfold resolveBufferedHash
  split <;> exact hashes_erase_subset _ _ _

theorem foldl_hashes_subset (queue : List BufferedHash) (key : EvictionKey) :
    (queue.foldl resolveBufferedHash tsm).dbEvictionWaitingList.hashes key ⊆
      tsm.dbEvictionWaitingList.hashes key := by
  induction queue generalizing tsm with
  | nil => exact Finset.Subset.refl _
  | cons b queue ih => exact ih.trans (resolve_hashes_subset b key)

theorem foldl_pruningBuffer (queue : List BufferedHash) :
    (queue.foldl resolveBufferedHash tsm).pruningBuffer = tsm.pruningBuffer := by
  induction queue generalizing tsm with
  | nil => rfl
  | cons b queue ih =>
    rw [foldl_cons, ih]
    unfold resolveBufferedHash
    split <;> rfl

theorem Prune_buffer (tsm : StorageManager) (root : Bytes) (identifier : TriePruningIdentifier) :
    (tsm.Prune root identifier).pruningBuffer =
      if tsm.pruningBlockingOps = 0 then []
      else if identifier = .NewRoot then tsm.pruningBuffer
      else (tsm.add ⟨(root, identifier), .prune⟩).pruningBuffer := by
  unfold Prune
  split_ifs <;> first | rfl | exact foldl_pruningBuffer _ | grind

variable {b : BufferedHash}

theorem resolve_guarded (hplain : Plain (b :: queue))
    (h : Guarded spared tsm.dbEvictionWaitingList (b :: queue) x) :
    Guarded spared (tsm.resolveBufferedHash b).dbEvictionWaitingList queue x := by
  intro before after old hq hspared hx
  have hold := resolve_hashes_subset b (old, .OldRoot) hx
  obtain ⟨new, hnew, hcancel⟩ := h (b :: before) after old (by rw [hq]; rfl) hspared hold
  refine ⟨new, ?_, fun hin => hcancel (mem_cons_of_mem _ hin)⟩
  have hkey : (new, TriePruningIdentifier.NewRoot) ≠ b.key := by
    intro hkey
    obtain ⟨key, operation⟩ := b
    cases operation with
    | cancelPrune => exact hcancel (by rw [cancelNew, hkey]; exact mem_cons_self)
    | prune => exact hplain new (by rw [hkey]; exact mem_cons_self)
  unfold resolveBufferedHash
  split <;> simpa [prune, cancelPrune, hashes_erase, hkey] using hnew

theorem resolve_mem_db (hplain : Plain (b :: queue))
    (h : Guarded (fun _ => False) tsm.dbEvictionWaitingList (b :: queue) x) (hdb : x ∈ tsm.db) :
    x ∈ (tsm.resolveBufferedHash b).db := by
  obtain ⟨⟨root, identifier⟩, operation⟩ := b
  cases operation with
  | cancelPrune => exact hdb
  | prune =>
    cases identifier with
    | NewRoot => exact absurd mem_cons_self (hplain root)
    | OldRoot =>
      simp only [resolveBufferedHash, prune, Finset.mem_sdiff, Finset.mem_filter, not_and]
      refine ⟨hdb, fun hx => ?_⟩
      obtain ⟨new, hnew, -⟩ := h [] queue root rfl id hx
      have hleft : x ∈ hashes (tsm.dbEvictionWaitingList.erase (root, .OldRoot))
          (new, .NewRoot) := by
        rw [hashes_erase, if_neg (by simp)]
        exact hnew
      simp [shouldKeepHash_of_new hleft .OldRoot]

theorem foldl_mem_db (tsm : StorageManager) (hplain : Plain queue)
    (h : Guarded (fun _ => False) tsm.dbEvictionWaitingList queue x) (hdb : x ∈ tsm.db) :
    x ∈ (queue.foldl resolveBufferedHash tsm).db := by
  induction queue generalizing tsm with
  | nil => exact hdb
  | cons b queue ih =>
    exact ih _ (fun root hin => hplain root (mem_cons_of_mem _ hin)) (resolve_guarded hplain h)
      (resolve_mem_db hplain h hdb)

/-- A request adds no entry to the waiting list, and to the buffer at most the operations named. -/
structure Shrinks (tsm tsm' : StorageManager) (ops : List BufferedHash) : Prop where
  hashes : ∀ key, tsm'.dbEvictionWaitingList.hashes key ⊆ tsm.dbEvictionWaitingList.hashes key
  buffer : ∀ b ∈ tsm'.pruningBuffer, b ∈ tsm.pruningBuffer ∨ b ∈ ops

theorem Shrinks.trans {tsm' tsm'' : StorageManager} {ops ops' : List BufferedHash}
    (h : Shrinks tsm tsm' ops) (h' : Shrinks tsm' tsm'' ops') :
    Shrinks tsm tsm'' (ops ++ ops') := by
  refine ⟨fun key => (h'.hashes key).trans (h.hashes key), fun b hb => ?_⟩
  rcases h'.buffer b hb with hb | hb
  · exact (h.buffer b hb).imp_right fun hin => mem_append_left _ hin
  · exact .inr (mem_append_right _ hb)

theorem add_shrinks (b : BufferedHash) : Shrinks tsm (tsm.add b) [b] := by
  unfold add
  split
  · exact ⟨fun _ => Finset.Subset.refl _, fun _ h => .inl h⟩
  · exact ⟨fun _ => Finset.Subset.refl _, fun _ h => mem_append.1 h⟩

theorem cancelPrune_shrinks (key : EvictionKey) : Shrinks tsm (tsm.cancelPrune key) [] :=
  ⟨fun _ => hashes_erase_subset _ _ _, fun _ h => .inl h⟩

section
variable (root : Bytes) (identifier : TriePruningIdentifier)
include root identifier

theorem CancelPrune_shrinks :
    Shrinks tsm (tsm.CancelPrune root identifier) [⟨(root, identifier), .cancelPrune⟩] := by
  unfold CancelPrune
  split
  · exact add_shrinks _
  · exact ⟨(cancelPrune_shrinks _).hashes, fun _ h => .inl h⟩

theorem Prune_shrinks :
    Shrinks tsm (tsm.Prune root identifier)
      (if identifier = .NewRoot then [] else [⟨(root, identifier), .prune⟩]) := by
  unfold Prune
  split
  · split
    · exact cancelPrune_shrinks _
    · exact add_shrinks _
  · refine ⟨fun key => ?_, fun b hb => ?_⟩
    · exact (hashes_erase_subset _ _ _).trans
        (foldl_hashes_subset tsm.pruningBuffer key)
    · exact absurd hb (by simp [prune, foldl_pruningBuffer])

theorem CancelPrune_db : (tsm.CancelPrune root identifier).db = tsm.db := by
  unfold CancelPrune add
  split
  · split <;> rfl
  · rfl

end

theorem add_guarded
    (h : Guarded spared tsm.dbEvictionWaitingList (tsm.pruningBuffer ++ b :: queue) x) :
    Guarded spared (tsm.add b).dbEvictionWaitingList ((tsm.add b).pruningBuffer ++ queue) x := by
  unfold add
  split
  · exact h.sublist (Sublist.append_left (sublist_cons_self _ _) _)
  · simpa using h

variable {root : Bytes}

theorem CancelPrune_guarded {identifier : TriePruningIdentifier}
    (hplain : Plain (⟨(root, identifier), .cancelPrune⟩ :: queue))
    (h : Guarded spared tsm.dbEvictionWaitingList
      (tsm.pruningBuffer ++ ⟨(root, identifier), .cancelPrune⟩ :: queue) x) :
    Guarded spared (tsm.CancelPrune root identifier).dbEvictionWaitingList
      ((tsm.CancelPrune root identifier).pruningBuffer ++ queue) x := by
  unfold CancelPrune
  split
  · exact add_guarded h
  next hdirect =>
  have hempty : tsm.pruningBuffer = [] := by
    by_contra hne
    exact hdirect (.inr hne)
  rw [hempty, nil_append] at h
  rw [show (tsm.cancelPrune (root, identifier)).pruningBuffer = [] from hempty, nil_append]
  exact resolve_guarded hplain h

theorem Prune_old_guarded
    (h : Guarded spared tsm.dbEvictionWaitingList (tsm.pruningBuffer ++ [pruneOld root]) x) :
    Guarded spared (tsm.Prune root .OldRoot).dbEvictionWaitingList
      (tsm.Prune root .OldRoot).pruningBuffer x := by
  unfold Prune
  split
  · simpa [pruneOld] using add_guarded h
  · simpa [prune, foldl_pruningBuffer] using Guarded.nil

theorem Prune_old_mem_db (hplain : Plain (tsm.pruningBuffer ++ [pruneOld root]))
    (h : Guarded (fun _ => False) tsm.dbEvictionWaitingList (tsm.pruningBuffer ++ [pruneOld root]) x)
    (hdb : x ∈ tsm.db) :
    x ∈ (tsm.Prune root .OldRoot).db := by
  unfold Prune
  split
  · simp only [reduceCtorEq, if_false, add]
    split <;> exact hdb
  · have hall := foldl_mem_db { tsm with pruningBuffer := [] } hplain h hdb
    rw [foldl_append] at hall
    exact hall

/-- A rollback prunes the hashes that are new for the root it leaves. -/
theorem Prune_new_guarded (h : Guarded spared tsm.dbEvictionWaitingList tsm.pruningBuffer x)
    (hx : x ∉ tsm.dbEvictionWaitingList.hashes (root, .NewRoot)) :
    Guarded spared (tsm.Prune root .NewRoot).dbEvictionWaitingList
      (tsm.Prune root .NewRoot).pruningBuffer x := by
  unfold Prune
  split
  · refine h.weaken (fun old _ _ hold => hashes_erase_subset _ _ _ hold) ?_
    intro new hnew
    have hne : (new, TriePruningIdentifier.NewRoot) ≠ (root, .NewRoot) := by
      rintro heq
      rw [heq] at hnew
      exact hx hnew
    simpa [cancelPrune, hashes_erase, hne] using hnew
  · simpa [prune, foldl_pruningBuffer] using Guarded.nil

theorem Prune_new_mem_db (hplain : Plain tsm.pruningBuffer)
    (h : Guarded (fun _ => False) tsm.dbEvictionWaitingList tsm.pruningBuffer x)
    (hx : x ∉ tsm.dbEvictionWaitingList.hashes (root, .NewRoot)) (hdb : x ∈ tsm.db) :
    x ∈ (tsm.Prune root .NewRoot).db := by
  unfold Prune
  split
  · exact hdb
  · have hall := foldl_mem_db { tsm with pruningBuffer := [] } hplain h hdb
    simp only [prune, Finset.mem_sdiff, Finset.mem_filter, not_and]
    exact ⟨hall, fun hin => absurd (foldl_hashes_subset tsm.pruningBuffer _ hin) hx⟩

end StorageManager

end KleverGo.Trie
