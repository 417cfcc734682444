import KleverGo.Trie.NodeHashing

/-!
# The Patricia Merkle trie

Reference model of `data/trie/patriciaMerkleTrie.go`: `Get`, `Update`, `Delete`, `RootHash`,
`Commit` and `Recreate`, with `keyBytesToHex`.  `markForEviction` does not touch the database and is
left out here, and so are the snapshots `Recreate` turns to for a root the database has lost.

* `exec_follows`, `run_follows` — every operation, and so every run, does to the trie what it does
  to the list of the writes that lead to the current root;
* `get_last_written` — **the trie is a finite map**;
* `rootHash_eq_iff` — **the root hash is that of the map**, whatever the history.
-/

namespace KleverGo.Trie

open List Fin

/-! ## Hex keys -/

def hexTerminator : Digit := 16

/-- `str[i] & nibbleMask` -/
def lowNibble (b : UInt8) : Digit := Fin.ofNat 17 (b &&& 0x0f).toNat

/-- `str[i] >> nibbleSize` -/
def highNibble (b : UInt8) : Digit := Fin.ofNat 17 (b >>> 4).toNat

/-- `keyBytesToHex`: the nibbles from the last to the first, and the terminator. -/
def keyBytesToHex (key : Bytes) : List Digit :=
  key.reverse.flatMap (fun b => [lowNibble b, highNibble b]) ++ [hexTerminator]

theorem lowNibble_val (b : UInt8) : (lowNibble b).val = b.toNat % 16 := by
  have hmask : (b &&& 0x0f).toNat = b.toNat % 16 := by
    rw [UInt8.toNat_and]
    exact Nat.and_two_pow_sub_one_eq_mod b.toNat 4
  rw [lowNibble, val_ofNat, hmask]
  omega

theorem highNibble_val (b : UInt8) : (highNibble b).val = b.toNat / 16 := by
  have hshift : (b >>> 4).toNat = b.toNat / 16 := by
    rw [UInt8.toNat_shiftRight]
    exact Nat.shiftRight_eq_div_pow b.toNat 4
  have hlt := b.toNat_lt
  rw [highNibble, val_ofNat, hshift]
  omega

theorem nibbles_injective {b c : UInt8} (hlow : lowNibble b = lowNibble c)
    (hhigh : highNibble b = highNibble c) : b = c := by
  have hl := congrArg val hlow
  have hh := congrArg val hhigh
  rw [lowNibble_val, lowNibble_val] at hl
  rw [highNibble_val, highNibble_val] at hh
  apply UInt8.toNat_inj.1
  omega

theorem flatMap_nibbles_injective {xs ys : List UInt8}
    (h : xs.flatMap (fun b => [lowNibble b, highNibble b]) =
      ys.flatMap (fun b => [lowNibble b, highNibble b])) : xs = ys := by
  induction xs generalizing ys with
  | nil =>
    cases ys with
    | nil => rfl
    | cons => simp at h
  | cons x xs ih =>
    cases ys with
    | nil => simp at h
    | cons y ys =>
      simp only [flatMap_cons, cons_append, nil_append, List.cons.injEq] at h
      rw [nibbles_injective h.1 h.2.1, ih h.2.2]

theorem keyBytesToHex_injective : Function.Injective keyBytesToHex := by
  intro k k' h
  exact reverse_injective (flatMap_nibbles_injective (append_cancel_right h))

theorem nibble_ne_terminator {xs : List UInt8} {d : Digit}
    (h : d ∈ xs.flatMap fun b => [lowNibble b, highNibble b]) : d ≠ hexTerminator := by
  obtain ⟨b, -, hd⟩ := mem_flatMap.1 h
  have hlt := b.toNat_lt
  simp only [mem_cons, not_mem_nil, or_false] at hd
  rintro rfl
  rcases hd with hd | hd
  · have := congrArg val hd
    rw [lowNibble_val] at this
    simp [hexTerminator] at this
    omega
  · have := congrArg val hd
    rw [highNibble_val] at this
    simp [hexTerminator] at this
    omega

/-- The terminator keeps a key from being a beginning of another. -/
theorem eq_of_keyBytesToHex_isPrefix {k k' : Bytes}
    (h : keyBytesToHex k <+: keyBytesToHex k') : keyBytesToHex k = keyBytesToHex k' := by
  rcases prefix_concat_iff.1 h with heq | hwithin
  · exact heq
  · have hmem : hexTerminator ∈ keyBytesToHex k := by simp [keyBytesToHex]
    exact absurd rfl (nibble_ne_terminator (hwithin.subset hmem))

/-! ## The trie -/

/-- `patriciaMerkleTrie`, with the database of its `trieStorage`. -/
structure PatriciaTrie where
  root : Node
  db : Database
  oldHashes : List Bytes
  oldRoot : Bytes
  maxTrieLevelInMemory : Nat

def newTrie (db : Database) (maxTrieLevelInMemory : Nat) : Except NodeError PatriciaTrie :=
  if maxTrieLevelInMemory = 0 then .error .ErrInvalidLevelValue
  else .ok
    { root := .nil, db := db, oldHashes := [], oldRoot := []
      maxTrieLevelInMemory := maxTrieLevelInMemory }

namespace PatriciaTrie

/-- How many nodes an operation on a key may go down through. -/
def depthFor (hexKey : List Digit) : Nat := hexKey.length + 1

variable (tr : PatriciaTrie)

/-- `Get`; a `nil` slice is `none`. -/
def get (key : Bytes) : Except NodeError (Option Bytes × PatriciaTrie) :=
  if tr.root.isNil then .ok (none, tr)
  else do
    let hexKey := keyBytesToHex key
    let (value, root) ← tr.root.tryGet tr.db (depthFor hexKey) hexKey
    pure (value, { tr with root := root })

/-- `if !tr.root.isDirty() { tr.oldRoot = tr.root.getHash() }` -/
def keepOldRoot : Bytes :=
  if tr.root.isDirty then tr.oldRoot else tr.root.getHash.getD []

def delete (tr : PatriciaTrie) (key : Bytes) : Except NodeError PatriciaTrie :=
  if tr.root.isNil then .ok tr
  else do
    let hexKey := keyBytesToHex key
    let (_, newRoot, oldHashes) ← tr.root.delete tr.db (depthFor hexKey) hexKey
    pure { tr with
      root := newRoot
      oldHashes := tr.oldHashes ++ oldHashes
      oldRoot := tr.keepOldRoot }

/-- `Update`; an empty value does what `Delete` does. -/
def update (key value : Bytes) : Except NodeError PatriciaTrie :=
  if value = [] then tr.delete key
  else do
    let hexKey := keyBytesToHex key
    if tr.root.isNil then pure { tr with root := .newLeafNode hexKey value }
    else
      let (_, newRoot, oldHashes) ← tr.root.insert tr.db (depthFor hexKey) hexKey value
      pure { tr with
        root := newRoot
        oldHashes := tr.oldHashes ++ oldHashes
        oldRoot := tr.keepOldRoot }

def rootHash (hasher : Hasher Digit) (tr : PatriciaTrie) : Except NodeError (Bytes × PatriciaTrie) :=
  if tr.root.isNil then .ok (EmptyTrieHash, tr)
  else
    match tr.root.getHash with
    | some hash => .ok (hash, tr)
    | none => do
      let root ← tr.root.setHash hasher
      pure (root.getHash.getD [], { tr with root := root })

def commit (hasher : Hasher Digit) (tr : PatriciaTrie) : Except NodeError PatriciaTrie :=
  if tr.root.isNil || !tr.root.isDirty then .ok tr
  else do
    let root ← tr.root.setHash hasher
    let (root, db) ← root.commit hasher tr.maxTrieLevelInMemory 0 tr.db
    pure { tr with root := root, db := db, oldHashes := [], oldRoot := [] }

def recreate (root : Bytes) : Except NodeError PatriciaTrie :=
  if emptyTrie root then newTrie tr.db tr.maxTrieLevelInMemory
  else
    match Node.getNodeFromDBAndDecode tr.db root with
    | .error _ => .error .ErrHashNotFound
    | .ok n => do
      let newTr ← newTrie tr.db tr.maxTrieLevelInMemory
      pure { newTr with root := n.setGivenHash root }

end PatriciaTrie

/-! ## Runs -/

inductive Op where
  | get (key : Bytes)
  | update (key value : Bytes)
  | delete (key : Bytes)
  | rootHash
  | commit
  /-- `Recreate` of the root of an earlier commit. -/
  | recreate (commit : Nat)
  deriving DecidableEq, Repr

/-- A trie in use, with the roots it was committed at. -/
structure Session where
  trie : PatriciaTrie
  committed : List Bytes

def Session.exec (hasher : Hasher Digit) (s : Session) : Op → Except NodeError Session
  | .get key => do
    let (_, tr) ← s.trie.get key
    pure { s with trie := tr }
  | .update key value => do
    let tr ← s.trie.update key value
    pure { s with trie := tr }
  | .delete key => do
    let tr ← s.trie.delete key
    pure { s with trie := tr }
  | .rootHash => do
    let (_, tr) ← s.trie.rootHash hasher
    pure { s with trie := tr }
  | .commit => do
    let tr ← s.trie.commit hasher
    let (root, tr) ← tr.rootHash hasher
    pure { trie := tr, committed := s.committed ++ [root] }
  | .recreate commit =>
    match s.committed[commit]? with
    | none => pure s
    | some root => do
      let tr ← s.trie.recreate root
      pure { s with trie := tr }

def Session.run (hasher : Hasher Digit) (s : Session) (ops : List Op) : Except NodeError Session :=
  ops.foldlM (Session.exec hasher) s

/-! ## What a run writes -/

/-- The writes that lead to the current root, the latest first, and those that led to each commit.
A deletion writes an empty value. -/
structure History where
  writes : List (Bytes × Bytes)
  committed : List (List (Bytes × Bytes))
  deriving DecidableEq, Repr

def History.exec (h : History) : Op → History
  | .get _ => h
  | .update key value => { h with writes := (key, value) :: h.writes }
  | .delete key => { h with writes := (key, []) :: h.writes }
  | .rootHash => h
  | .commit => { h with committed := h.committed ++ [h.writes] }
  | .recreate commit =>
    match h.committed[commit]? with
    | none => h
    | some writes => { h with writes := writes }

/-- The last value written to a key, `none` if it is empty or there is none. -/
def lastWritten (writes : List (Bytes × Bytes)) (key : Bytes) : Option Bytes :=
  match writes.find? (fun w => w.1 = key) with
  | none => none
  | some w => if w.2 = [] then none else some w.2

/-- The map that a run on a new trie leaves. -/
def leaves (ops : List Op) : Bytes → Option Bytes :=
  lastWritten (ops.foldl History.exec ⟨[], []⟩).writes

theorem lastWritten_cons (key value : Bytes) (writes : List (Bytes × Bytes)) :
    lastWritten ((key, value) :: writes) =
      Function.update (lastWritten writes) key (if value = [] then none else some value) := by
  funext k
  by_cases hk : k = key
  · subst hk
    simp [lastWritten]
  · simp [lastWritten, hk, Ne.symm hk]

/-! ## Trees and maps -/

/-- The canonical tree of a map from byte strings. -/
structure Means (t : PTree) (m : Bytes → Option Bytes) : Prop where
  canonical : t.Canonical
  value : ∀ k, (t.lookup (keyBytesToHex k)).map Subtype.val = m k
  keys : ∀ key v, t.lookup key = some v → ∃ k, key = keyBytesToHex k

section Means

variable {t u : PTree} {m m' : Bytes → Option Bytes}

theorem Means.nil : Means .nil fun _ => none :=
  ⟨trivial, fun _ => rfl, fun _ _ h => by cases h⟩

section
variable (h : Means t m)
include h

theorem Means.apart (k : Bytes) : t.Apart (keyBytesToHex k) := by
  intro key v hkey hne
  obtain ⟨k', rfl⟩ := h.keys key v hkey
  exact ⟨fun hpre => hne (eq_of_keyBytesToHex_isPrefix hpre),
    fun hpre => hne (eq_of_keyBytesToHex_isPrefix hpre).symm⟩

/-- A tree that differs in the value of one key has the map with that key written. -/
theorem Means.write (hu : u.Canonical) {k : Bytes} {v : Option Value}
    (hlookup : ∀ key, u.lookup key = if key = keyBytesToHex k then v else t.lookup key) :
    Means u (Function.update m k (v.map Subtype.val)) := by
  refine ⟨hu, fun k' => ?_, fun key v hkey => ?_⟩
  · rw [hlookup]
    by_cases hk : k' = k
    · simp [hk]
    · simp [hk, keyBytesToHex_injective.ne hk, h.value k']
  · rw [hlookup] at hkey
    split at hkey
    · next hk => exact ⟨k, hk⟩
    · exact h.keys key v hkey

theorem Means.insert (k : Bytes) (value : Value) :
    Means (t.insert (keyBytesToHex k) value) (Function.update m k (some value.1)) :=
  h.write (h.canonical.insert (h.apart k) value).1
    (Patricia.Tree.lookup_insert h.canonical (h.apart k) value)

theorem Means.delete (k : Bytes) :
    Means (t.delete (keyBytesToHex k)) (Function.update m k none) :=
  h.write (h.canonical.delete _).1 (Patricia.Tree.lookup_delete t _)

theorem Means.tree_unique (h' : Means u m) : t = u := by
  refine h.canonical.ext h'.canonical fun key => ?_
  have hagree : ∀ k, t.lookup (keyBytesToHex k) = u.lookup (keyBytesToHex k) := by
    intro k
    exact Option.map_injective Subtype.val_injective ((h.value k).trans (h'.value k).symm)
  cases ht : t.lookup key with
  | some v =>
    obtain ⟨k, rfl⟩ := h.keys key v ht
    rw [← hagree, ht]
  | none =>
    cases hu : u.lookup key with
    | none => rfl
    | some v =>
      obtain ⟨k, rfl⟩ := h'.keys key v hu
      rw [hagree, hu] at ht
      cases ht

theorem Means.map_unique (h' : Means t m') : m = m' :=
  funext fun k => (h.value k).symm.trans (h'.value k)

theorem Means.eq_nil_iff : t = .nil ↔ m = fun _ => none :=
  ⟨fun ht => by subst ht; exact h.map_unique Means.nil, fun hm => by
    subst hm; exact h.tree_unique Means.nil⟩

end

end Means

def rootOf (hasher : Hasher Digit) (t : PTree) : Bytes :=
  if t.isNil then EmptyTrieHash else merkle hasher t

theorem rootOf_eq_emptyTrieHash {hasher : Hasher Digit} {t : PTree} :
    rootOf hasher t = EmptyTrieHash ↔ t = .nil := by
  cases t with
  | nil => simp [rootOf, Patricia.Tree.isNil]
  | leaf | extension | branch =>
    simp [rootOf, Patricia.Tree.isNil, merkle, hasher.compute_ne_emptyTrieHash]

theorem rootOf_injective (hasher : Hasher Digit) : Function.Injective (rootOf hasher) := by
  intro t u h
  by_cases ht : t = .nil
  · rw [rootOf_eq_emptyTrieHash.2 ht] at h
    rw [ht, rootOf_eq_emptyTrieHash.1 h.symm]
  by_cases hu : u = .nil
  · rw [rootOf_eq_emptyTrieHash.2 hu] at h
    exact absurd (rootOf_eq_emptyTrieHash.1 h) ht
  · rw [rootOf, if_neg (mt Patricia.Tree.isNil_iff.1 ht), rootOf,
      if_neg (mt Patricia.Tree.isNil_iff.1 hu)] at h
    exact merkle_injective hasher h

/-! ## Operations on a trie that stands for a map -/

section Operations

variable {hasher : Hasher Digit} {tr : PatriciaTrie} {t : PTree} {m : Bytes → Option Bytes}

/-- The trie after an operation stands for a tree, and its database has only grown. -/
structure Becomes (hasher : Hasher Digit) (tr tr' : PatriciaTrie) (t : PTree) : Prop where
  represents : Represents hasher tr'.db tr'.root t
  grows : Grows hasher tr.db tr'.db
  level : tr'.maxTrieLevelInMemory = tr.maxTrieLevelInMemory

theorem Becomes.self (h : Represents hasher tr.db tr.root t) : Becomes hasher tr tr t :=
  ⟨h, Grows.refl _, rfl⟩

/-- Only the root changes, and what is noted for the eviction of nodes. -/
theorem Becomes.root {root : Node} (h : Represents hasher tr.db root t) (oldHashes : List Bytes)
    (oldRoot : Bytes) :
    Becomes hasher tr { tr with root := root, oldHashes := oldHashes, oldRoot := oldRoot } t :=
  ⟨h, Grows.refl _, rfl⟩

theorem length_lt_depthFor (hexKey : List Digit) : hexKey.length < PatriciaTrie.depthFor hexKey :=
  Nat.lt_succ_self _

section
variable (h : Represents hasher tr.db tr.root t) (hm : Means t m) (key : Bytes)
include h hm key

theorem get_becomes : ∃ tr', tr.get key = .ok (m key, tr') ∧ Becomes hasher tr tr' t := by
  by_cases hnil : tr.root = .nil
  · refine ⟨tr, ?_, Becomes.self h⟩
    rw [PatriciaTrie.get, if_pos (by simp [hnil]), hm.eq_nil_iff.1 (h.eq_nil_iff.1 hnil)]
  have hne := h.tree_ne_nil hnil
  obtain ⟨root, hget, hrep⟩ := tryGet_refines h hm.canonical hne
    (length_lt_depthFor (keyBytesToHex key))
  refine ⟨_, ?_, Becomes.root hrep tr.oldHashes tr.oldRoot⟩
  simp [PatriciaTrie.get, hnil, hget, hm.value]

theorem delete_becomes :
    ∃ tr', tr.delete key = .ok tr' ∧ Becomes hasher tr tr' (t.delete (keyBytesToHex key)) := by
  by_cases hnil : tr.root = .nil
  · refine ⟨tr, by simp [PatriciaTrie.delete, hnil], ?_⟩
    obtain rfl : t = .nil := h.eq_nil_iff.1 hnil
    exact Becomes.self h
  have hne := h.tree_ne_nil hnil
  obtain ⟨dirty, root, oldHashes, hdel, hrep, -, -⟩ := delete_refines h hm.canonical hne
    (hm.apart key) (length_lt_depthFor (keyBytesToHex key))
  refine ⟨_, ?_, Becomes.root hrep (tr.oldHashes ++ oldHashes) tr.keepOldRoot⟩
  simp [PatriciaTrie.delete, hnil, hdel]

theorem insert_becomes (value : Value) :
    ∃ tr', tr.update key value.1 = .ok tr' ∧
      Becomes hasher tr tr' (t.insert (keyBytesToHex key) value) := by
  by_cases hnil : tr.root = .nil
  · rw [h.eq_nil_iff.1 hnil]
    refine ⟨_, ?_, Becomes.root (represents_newLeafNode (keyBytesToHex key) value) tr.oldHashes
      tr.oldRoot⟩
    simp [PatriciaTrie.update, value.2, hnil]
  have hne := h.tree_ne_nil hnil
  obtain ⟨dirty, root, oldHashes, hins, hrep, -, -⟩ := insert_refines value h hm.canonical hne
    (hm.apart key) (length_lt_depthFor (keyBytesToHex key))
  refine ⟨_, ?_, Becomes.root hrep (tr.oldHashes ++ oldHashes) tr.keepOldRoot⟩
  simp [PatriciaTrie.update, value.2, hnil, hins]

end

theorem rootOf_of_ne_nil (hne : t ≠ .nil) : rootOf hasher t = merkle hasher t := by
  rw [rootOf, if_neg (mt Patricia.Tree.isNil_iff.1 hne)]

theorem rootHash_becomes (h : Represents hasher tr.db tr.root t) (ht : t.Canonical) :
    ∃ tr', tr.rootHash hasher = .ok (rootOf hasher t, tr') ∧ Becomes hasher tr tr' t ∧
      tr'.db = tr.db := by
  by_cases hnil : tr.root = .nil
  · refine ⟨tr, ?_, Becomes.self h, rfl⟩
    rw [rootOf_eq_emptyTrieHash.2 (h.eq_nil_iff.1 hnil)]
    simp [PatriciaTrie.rootHash, hnil]
  have hne := h.tree_ne_nil hnil
  rw [rootOf_of_ne_nil hne]
  cases hhash : tr.root.getHash with
  | some x =>
    have hx := ((represents_iff_held hnil).1 h).1.cached hne hhash
    refine ⟨tr, ?_, Becomes.self h, rfl⟩
    simp [PatriciaTrie.rootHash, hnil, hhash, hx]
  | none =>
    obtain ⟨root, hset, hrep, hroot, -⟩ := setHash_refines h ht hne
    refine ⟨_, ?_, Becomes.root hrep tr.oldHashes tr.oldRoot, rfl⟩
    simp [PatriciaTrie.rootHash, hnil, hhash, hset, hroot]

theorem commit_becomes (h : Represents hasher tr.db tr.root t) (ht : t.Canonical)
    (hdb : WellKeyed hasher tr.db) :
    ∃ tr', tr.commit hasher = .ok tr' ∧ Becomes hasher tr tr' t ∧ Stored hasher tr'.db t := by
  by_cases hnil : tr.root = .nil
  · refine ⟨tr, by simp [PatriciaTrie.commit, hnil], Becomes.self h, ?_⟩
    rw [h.eq_nil_iff.1 hnil]
    trivial
  have hne := h.tree_ne_nil hnil
  cases hdirty : tr.root.isDirty with
  | false =>
    refine ⟨tr, by simp [PatriciaTrie.commit, hdirty], Becomes.self h, ?_⟩
    exact (((represents_iff_held hnil).1 h).2 hdirty).2
  | true =>
    obtain ⟨root, hset, hrep, -, -⟩ := setHash_refines h ht hne
    obtain ⟨root', db, hcommit, hgrows, hrep', hclean⟩ :=
      commit_refines hrep ht hne hdb tr.maxTrieLevelInMemory 0
    refine ⟨{ tr with root := root', db := db, oldHashes := [], oldRoot := [] }, ?_,
      ⟨hrep', hgrows, rfl⟩, ?_⟩
    · simp [PatriciaTrie.commit, hnil, hdirty, hset, hcommit]
    · exact (((represents_iff_held (hrep'.ne_nil hne)).1 hrep').2 hclean).2

theorem recreate_becomes (hstored : Stored hasher tr.db t) (hlevel : tr.maxTrieLevelInMemory ≠ 0) :
    ∃ tr', tr.recreate (rootOf hasher t) = .ok tr' ∧ Becomes hasher tr tr' t := by
  by_cases hne : t = .nil
  · have hrep : Represents hasher tr.db .nil t := hne
    refine ⟨_, ?_, Becomes.root hrep [] []⟩
    simp [PatriciaTrie.recreate, rootOf_eq_emptyTrieHash.2 hne, emptyTrie, newTrie, hlevel]
  obtain ⟨n, hload, hrep⟩ := hstored.load hne
  have hempty : emptyTrie (merkle hasher t) = false := by
    have hroot : rootOf hasher t ≠ EmptyTrieHash := fun heq => hne (rootOf_eq_emptyTrieHash.1 heq)
    rw [rootOf_of_ne_nil hne] at hroot
    simp [emptyTrie, merkle_eq_nil, hne, hroot]
  rw [rootOf_of_ne_nil hne]
  refine ⟨_, ?_, Becomes.root hrep [] []⟩
  simp [PatriciaTrie.recreate, hempty, hload, newTrie, hlevel]

end Operations

/-! ## Runs follow their writes -/

/-- The session has the map its writes leave, and the database holds the maps it was committed
with, under the roots that were noted. -/
structure Follows (hasher : Hasher Digit) (s : Session) (h : History) : Prop where
  current : ∃ t, Means t (lastWritten h.writes) ∧ Represents hasher s.trie.db s.trie.root t
  keyed : WellKeyed hasher s.trie.db
  level : s.trie.maxTrieLevelInMemory ≠ 0
  committed : Forall₂ (fun root writes => ∃ t, Means t (lastWritten writes) ∧
    Stored hasher s.trie.db t ∧ root = rootOf hasher t) s.committed h.committed

section Runs

variable {hasher : Hasher Digit} {s : Session} {h : History}

theorem Follows.becomes (hs : Follows hasher s h) {tr : PatriciaTrie} {t : PTree}
    {writes : List (Bytes × Bytes)} (ht : Means t (lastWritten writes))
    (htr : Becomes hasher s.trie tr t) :
    Follows hasher { s with trie := tr } { h with writes := writes } := by
  refine ⟨⟨t, ht, htr.represents⟩, htr.grows.2 hs.keyed, ?_, hs.committed.imp ?_⟩
  · rw [htr.level]
    exact hs.level
  · rintro root writes ⟨t', ht', hstored, rfl⟩
    exact ⟨t', ht', hstored.mono htr.grows.1, rfl⟩

theorem exec_follows (hs : Follows hasher s h) (op : Op) :
    ∃ s', s.exec hasher op = .ok s' ∧ Follows hasher s' (h.exec op) := by
  obtain ⟨t, ht, hrep⟩ := hs.current
  cases op with
  | get key =>
    obtain ⟨tr, hget, htr⟩ := get_becomes hrep ht key
    refine ⟨_, ?_, hs.becomes ht htr⟩
    simp [Session.exec, hget]
  | update key value =>
    by_cases hvalue : value = []
    · obtain ⟨tr, hdel, htr⟩ := delete_becomes hrep ht key
      have hmeans : Means (t.delete (keyBytesToHex key)) (lastWritten ((key, value) :: h.writes)) := by
        rw [lastWritten_cons, if_pos hvalue]
        exact ht.delete key
      refine ⟨_, ?_, hs.becomes hmeans htr⟩
      simp [Session.exec, PatriciaTrie.update, hvalue, hdel]
    · obtain ⟨tr, hins, htr⟩ := insert_becomes hrep ht key ⟨value, hvalue⟩
      have hmeans : Means (t.insert (keyBytesToHex key) ⟨value, hvalue⟩)
          (lastWritten ((key, value) :: h.writes)) := by
        rw [lastWritten_cons, if_neg hvalue]
        exact ht.insert key ⟨value, hvalue⟩
      refine ⟨_, ?_, hs.becomes hmeans htr⟩
      simp only [Session.exec, hins, except_ok_bind, except_pure]
  | delete key =>
    obtain ⟨tr, hdel, htr⟩ := delete_becomes hrep ht key
    have hmeans : Means (t.delete (keyBytesToHex key)) (lastWritten ((key, []) :: h.writes)) := by
      rw [lastWritten_cons, if_pos rfl]
      exact ht.delete key
    refine ⟨_, ?_, hs.becomes hmeans htr⟩
    simp [Session.exec, hdel]
  | rootHash =>
    obtain ⟨tr, hroot, htr, -⟩ := rootHash_becomes hrep ht.canonical
    refine ⟨_, ?_, hs.becomes ht htr⟩
    simp [Session.exec, hroot]
  | commit =>
    obtain ⟨tr, hcommit, htr, hstored⟩ := commit_becomes hrep ht.canonical hs.keyed
    have hs' := hs.becomes ht htr
    obtain ⟨tr', hroot, htr', hdb⟩ := rootHash_becomes htr.represents ht.canonical
    have hs'' := hs'.becomes ht htr'
    refine ⟨{ trie := tr', committed := s.committed ++ [rootOf hasher t] }, ?_,
      hs''.current, hs''.keyed, hs''.level, ?_⟩
    · simp [Session.exec, hcommit, hroot]
    · refine rel_append hs''.committed (.cons ⟨t, ht, ?_, rfl⟩ .nil)
      rw [hdb]
      exact hstored
  | recreate commit =>
    cases hc : s.committed[commit]? with
    | none =>
      have hc' : h.committed[commit]? = none := by
        rw [List.getElem?_eq_none_iff] at hc ⊢
        rwa [← hs.committed.length_eq]
      refine ⟨s, by simp [Session.exec, hc], ?_⟩
      simpa [History.exec, hc'] using hs
    | some root =>
      obtain ⟨hlen, hall⟩ := forall₂_iff_get.1 hs.committed
      obtain ⟨hi, hroot⟩ := List.getElem?_eq_some_iff.1 hc
      have hi' : commit < h.committed.length := hlen ▸ hi
      obtain ⟨t', ht', hstored, heq⟩ := hall commit hi hi'
      have hc' : h.committed[commit]? = some (h.committed.get ⟨commit, hi'⟩) :=
        getElem?_eq_getElem hi'
      obtain ⟨tr, hrec, htr⟩ := recreate_becomes hstored hs.level
      have hroot' : root = rootOf hasher t' := hroot.symm.trans heq
      rw [History.exec, hc']
      refine ⟨_, ?_, hs.becomes ht' htr⟩
      simp [Session.exec, hc, hroot', hrec]

theorem run_follows (hs : Follows hasher s h) (ops : List Op) :
    ∃ s', s.run hasher ops = .ok s' ∧ Follows hasher s' (ops.foldl History.exec h) := by
  induction ops generalizing s h with
  | nil => exact ⟨s, rfl, hs⟩
  | cons op ops ih =>
    obtain ⟨s₁, hexec, hs1⟩ := exec_follows hs op
    obtain ⟨s₂, hrun, hs2⟩ := ih hs1
    refine ⟨s₂, ?_, hs2⟩
    rw [Session.run, foldlM_cons, hexec, except_ok_bind]
    exact hrun

theorem newTrie_follows {db : Database} (hdb : WellKeyed hasher db) {max : Nat} (hmax : 1 ≤ max) :
    ∃ tr, newTrie db max = .ok tr ∧ Follows hasher ⟨tr, []⟩ ⟨[], []⟩ := by
  have hlevel : max ≠ 0 := Nat.one_le_iff_ne_zero.1 hmax
  refine ⟨⟨.nil, db, [], [], max⟩, by rw [newTrie, if_neg hlevel], ?_⟩
  exact ⟨⟨.nil, Means.nil, (rfl : Patricia.Tree.nil = .nil)⟩, hdb, hlevel, .nil⟩

/-- A run on a new trie ends, and the trie has the map that was written. -/
theorem run_new {db : Database} (hdb : WellKeyed hasher db) {max : Nat} (hmax : 1 ≤ max)
    (ops : List Op) :
    ∃ tr s, newTrie db max = .ok tr ∧ Session.run hasher ⟨tr, []⟩ ops = .ok s ∧
      ∃ t, Means t (leaves ops) ∧ Represents hasher s.trie.db s.trie.root t := by
  obtain ⟨tr, hnew, hfollows⟩ := newTrie_follows hdb hmax
  obtain ⟨s, hrun, hs⟩ := run_follows hfollows ops
  exact ⟨tr, s, hnew, hrun, hs.current⟩

end Runs

def digitHasher : Hasher Digit :=
  plainHasher (fun d => UInt8.ofNat d.val) fun a b h => by
    have hval := congrArg UInt8.toNat h
    simp only [UInt8.toNat_ofNat'] at hval
    apply Fin.ext
    omega

/-- Two keys that share a nibble, committed, changed, and the commit recreated. -/
def twoKeys : List Op :=
  [.update [0x11] [1], .update [0x21] [2], .commit, .delete [0x11], .rootHash, .update [0x21] [],
    .commit, .recreate 0, .update [0x21] [3]]

/-- **The trie is a finite map.**  Every run on a new trie succeeds, and afterwards `Get` returns
for every key, without an error, the last value written to it in the history of the current root. -/
theorem get_last_written (hasher : Hasher Digit) {db : Database} (hdb : WellKeyed hasher db)
    {max : Nat} (hmax : 1 ≤ max) (ops : List Op) :
    ∃ tr s, newTrie db max = .ok tr ∧ Session.run hasher ⟨tr, []⟩ ops = .ok s ∧
      ∀ key, ∃ tr', s.trie.get key = .ok (leaves ops key, tr') := by
  obtain ⟨tr, s, hnew, hrun, t, ht, hrep⟩ := run_new hdb hmax ops
  refine ⟨tr, s, hnew, hrun, fun key => ?_⟩
  obtain ⟨tr', hget, -⟩ := get_becomes hrep ht key
  exact ⟨tr', hget⟩

theorem get_last_written_twoKeys :
    (∃ tr s, newTrie ∅ 1 = .ok tr ∧ Session.run digitHasher ⟨tr, []⟩ twoKeys = .ok s ∧
      ∀ key, ∃ tr', s.trie.get key = .ok (leaves twoKeys key, tr')) ∧
    leaves twoKeys [0x11] = some [1] ∧ leaves twoKeys [0x21] = some [3] ∧
      leaves twoKeys [0x31] = none :=
  ⟨get_last_written digitHasher (fun h n hn => by simp at hn) (Nat.le_refl 1) twoKeys, by decide,
    by decide, by decide⟩

section Shape

/-- A node of the trie, in memory or in the database: a child is the one an operation would find. -/
inductive Node.Within (db : Database) (root : Node) : Node → Prop
  | root : root ≠ .nil → Within db root root
  | child {n n' : Node} {pos : Digit} : Within db root n → n.resolveIfCollapsed db pos = .ok n' →
      n'.childAt pos ≠ .nil → Within db root (n'.childAt pos)

def Node.isBranch : Node → Bool
  | .branch _ _ _ _ => true
  | _ => false

/-- A branch node has two children, and an extension node has a key and a branch node below it. -/
def Node.WellShaped (db : Database) : Node → Prop
  | .branch enc children _ _ => 2 ≤ (Node.childPositions enc children).length
  | n@(.extension key _ _ _ _) =>
    key ≠ [] ∧ ∃ n', n.resolveIfCollapsed db 0 = .ok n' ∧ (n'.childAt 0).isBranch = true
  | _ => True

/-- The hash of the content of a node, with that of each loaded child computed anew. -/
def Node.recomputedHash (hasher : Hasher Digit) : Node → Bytes
  | .nil => []
  | .leaf key value _ _ => hasher.compute (.leaf key value)
  | .extension key enc child _ _ =>
    hasher.compute (.extension key (if child.isNil then enc else child.recomputedHash hasher))
  | .branch enc children _ _ =>
    hasher.compute
      (.branch fun i => if (children i).isNil then enc i else (children i).recomputedHash hasher)

variable {hasher : Hasher Digit} {db : Database}

theorem Represents.recomputedHash {n : Node} {t : PTree} (h : Represents hasher db n t) :
    n.recomputedHash hasher = merkle hasher t := by
  induction n generalizing t with
  | nil =>
    obtain rfl : t = .nil := h
    rfl
  | leaf key value hash dirty =>
    obtain ⟨v, rfl, rfl, -⟩ := h
    rfl
  | extension key enc child hash dirty ih =>
    obtain ⟨c, rfl, hslot, -⟩ := h
    by_cases hnil : child = .nil
    · simp [Node.recomputedHash, hnil, (hslot.1 hnil).1, merkle]
    · simp [Node.recomputedHash, hnil, ih (hslot.2 hnil), merkle]
  | branch enc children hash dirty ih =>
    obtain ⟨ts, rfl, hslots, -⟩ := h
    rw [Node.recomputedHash, merkle]
    congr 2
    funext i
    by_cases hnil : children i = .nil
    · simp [hnil, ((hslots i).1 hnil).1]
    · simp [hnil, ih i ((hslots i).2 hnil)]

theorem Represents.within {root n : Node} {t : PTree} (h : Represents hasher db root t)
    (ht : t.Canonical) (hn : Node.Within db root n) :
    ∃ u, Represents hasher db n u ∧ u.Canonical ∧ u ≠ .nil := by
  induction hn with
  | root hne => exact ⟨t, h, ht, fun heq => hne (h.eq_nil_iff.2 heq)⟩
  | @child n n' pos _ hresolve hne ih =>
    obtain ⟨u, hu, hcanon, hune⟩ := ih
    cases n with
    | nil => exact absurd hu hune
    | leaf key value hash dirty =>
      have hok := hu.isEmptyOrNil hcanon hune
      simp [Node.resolveIfCollapsed, hok, Node.isPosCollapsed] at hresolve
      exact absurd (by rw [← hresolve]; rfl) hne
    | extension key enc child hash dirty =>
      obtain ⟨c, rfl, -⟩ := id hu
      obtain ⟨child', heq, hchild⟩ := resolve_extension hcanon hu pos
      rw [heq] at hresolve
      cases hresolve
      exact ⟨c, hchild, hcanon.2.2, Patricia.Tree.ne_nil_of_isBranch hcanon.2.1⟩
    | branch enc children hash dirty =>
      obtain ⟨ts, rfl, -⟩ := id hu
      obtain ⟨child', heq, hchild⟩ :=
        resolve_branch (Canonical.exists_child hcanon) (represents_branch.1 hu).1 hash dirty pos
      rw [heq] at hresolve
      cases hresolve
      rw [Node.childAt, Function.update_self] at hne ⊢
      exact ⟨ts pos, hchild, hcanon.2 pos, fun hnil => hne (hchild.eq_nil_iff.2 hnil)⟩

theorem Represents.isBranch {n : Node} {t : PTree} (h : Represents hasher db n t)
    (ht : t.isBranch = true) : n.isBranch = true := by
  cases n with
  | nil => obtain rfl : t = .nil := h; cases ht
  | leaf => obtain ⟨v, -, rfl, -⟩ := h; cases ht
  | extension => obtain ⟨c, rfl, -⟩ := h; cases ht
  | branch => rfl

theorem Represents.wellShaped {n : Node} {t : PTree} (h : Represents hasher db n t)
    (ht : t.Canonical) : n.WellShaped db := by
  cases n with
  | nil | leaf => trivial
  | extension key enc child hash dirty =>
    obtain ⟨c, rfl, -⟩ := id h
    obtain ⟨child', hresolve, hchild⟩ := resolve_extension ht h 0
    exact ⟨ht.1, _, hresolve, hchild.isBranch ht.2.1⟩
  | branch enc children hash dirty =>
    obtain ⟨ts, rfl, -⟩ := id h
    obtain ⟨⟨a, b, hab, ha, hb⟩, -⟩ := ht
    rw [Node.WellShaped, childPositions_eq (represents_branch.1 h).1]
    have hsub : [a, b] ⊆ Patricia.Tree.positions ts := by
      intro d hd
      rcases mem_pair.1 hd with rfl | rfl
      · exact Patricia.Tree.mem_positions.2 ha
      · exact Patricia.Tree.mem_positions.2 hb
    exact (subperm_of_subset (by simpa using hab) hsub).length_le

end Shape

/-- **The root hash is that of the map.**  Two runs, on tries with any databases and levels, leave
the same root hash exactly when they leave the same map, and the hash of the empty trie exactly for
the empty map.  Every node of such a trie has the canonical shape, and its cached hash is the hash
of its content. -/
theorem rootHash_eq_iff (hasher : Hasher Digit) {db₁ db₂ : Database} (hdb₁ : WellKeyed hasher db₁)
    (hdb₂ : WellKeyed hasher db₂) {max₁ max₂ : Nat} (hmax₁ : 1 ≤ max₁) (hmax₂ : 1 ≤ max₂)
    (ops₁ ops₂ : List Op) :
    ∃ tr₁ tr₂ s₁ s₂ hash₁ hash₂ tr₁' tr₂', newTrie db₁ max₁ = .ok tr₁ ∧
      newTrie db₂ max₂ = .ok tr₂ ∧ Session.run hasher ⟨tr₁, []⟩ ops₁ = .ok s₁ ∧
      Session.run hasher ⟨tr₂, []⟩ ops₂ = .ok s₂ ∧
      s₁.trie.rootHash hasher = .ok (hash₁, tr₁') ∧ s₂.trie.rootHash hasher = .ok (hash₂, tr₂') ∧
      (hash₁ = hash₂ ↔ leaves ops₁ = leaves ops₂) ∧
      (hash₁ = EmptyTrieHash ↔ ∀ key, leaves ops₁ key = none) ∧
      ∀ n, Node.Within s₁.trie.db s₁.trie.root n → n.WellShaped s₁.trie.db ∧
        ∀ hash, n.getHash = some hash → hash = n.recomputedHash hasher := by
  obtain ⟨tr₁, s₁, hnew1, hrun1, t1, ht1, hrep1⟩ := run_new hdb₁ hmax₁ ops₁
  obtain ⟨tr₂, s₂, hnew2, hrun2, t2, ht2, hrep2⟩ := run_new hdb₂ hmax₂ ops₂
  obtain ⟨tr₁', hroot1, -⟩ := rootHash_becomes hrep1 ht1.canonical
  obtain ⟨tr₂', hroot2, -⟩ := rootHash_becomes hrep2 ht2.canonical
  refine ⟨tr₁, tr₂, s₁, s₂, _, _, tr₁', tr₂', hnew1, hnew2, hrun1, hrun2, hroot1, hroot2, ?_, ?_,
    fun n hn => ?_⟩
  · rw [(rootOf_injective hasher).eq_iff]
    constructor
    · rintro rfl
      exact ht1.map_unique ht2
    · intro hmaps
      rw [← hmaps] at ht2
      exact ht1.tree_unique ht2
  · rw [rootOf_eq_emptyTrieHash, ht1.eq_nil_iff, funext_iff]
  · obtain ⟨u, hu, hcanon, hune⟩ := hrep1.within ht1.canonical hn
    refine ⟨hu.wellShaped hcanon, fun hash hhash => ?_⟩
    rw [hu.recomputedHash]
    exact ((represents_iff_held (hu.ne_nil hune)).1 hu).1.cached hune hhash

theorem rootHash_eq_iff_twoKeys :
    (∃ tr₁ tr₂ s₁ s₂ hash₁ hash₂ tr₁' tr₂', newTrie ∅ 1 = .ok tr₁ ∧ newTrie ∅ 5 = .ok tr₂ ∧
      Session.run digitHasher ⟨tr₁, []⟩ twoKeys = .ok s₁ ∧
      Session.run digitHasher ⟨tr₂, []⟩ [.update [0x21] [3], .update [0x11] [1]] = .ok s₂ ∧
      s₁.trie.rootHash digitHasher = .ok (hash₁, tr₁') ∧
      s₂.trie.rootHash digitHasher = .ok (hash₂, tr₂') ∧
      (hash₁ = hash₂ ↔ leaves twoKeys = leaves [.update [0x21] [3], .update [0x11] [1]]) ∧
      (hash₁ = EmptyTrieHash ↔ ∀ key, leaves twoKeys key = none) ∧
      ∀ n, Node.Within s₁.trie.db s₁.trie.root n → n.WellShaped s₁.trie.db ∧
        ∀ hash, n.getHash = some hash → hash = n.recomputedHash digitHasher) :=
  rootHash_eq_iff digitHasher (fun h n hn => by simp at hn) (fun h n hn => by simp at hn)
    (Nat.le_refl 1) (by decide) twoKeys [.update [0x21] [3], .update [0x11] [1]]

end KleverGo.Trie
